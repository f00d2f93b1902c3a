import Mathlib.Data.List.Nodup
import Mathlib.Data.Rat.Defs

/-!
# The token store

The table `auth_tokens` and the functions over it (`auth.ts`).  A row is the primary token of
`auth.json`, kept under an id of its own, or a token that a pairing made.  Every start of the hub
sweeps the rows but the primary one; a revocation and a sweep are never undone; an expiry slides
with use.

Times are milliseconds, in whose order the ISO strings of the source are.  A store that cannot be
read answers `unavailable`.

## Main results

* `Ended.not_valid` — such a credential is not valid.
* `Ended.later`, `Ended.revokeToken`, `Ended.touchToken`, … — and it stays so, where only a valid
  credential is touched.
-/

namespace Lasterm.Hub.Auth

open List Function

/-- `PRIMARY_TOKEN_ID`. -/
def PRIMARY_TOKEN_ID : String := "primary"

/-- A row, but for what no check reads: its label and when it was made. -/
structure TokenRow where
  id : String
  tokenHash : String
  expiresAt : Option ℕ
  revokedAt : Option ℕ
  sweptAt : Option ℕ
  lastUsedAt : Option ℕ

/-- `auth_tokens`, in the order of insertion.  The id is its primary key and the hash is unique. -/
structure AuthTokens where
  rows : List TokenRow
  ids : (rows.map (·.id)).Nodup
  hashes : (rows.map (·.tokenHash)).Nodup

namespace AuthTokens

/-- No token was given. -/
def empty : AuthTokens := ⟨[], nodup_nil, nodup_nil⟩

variable (t : AuthTokens)

/-- An UPDATE that touches neither key. -/
def update (f : TokenRow → TokenRow) (hid : ∀ r, (f r).id = r.id)
    (hhash : ∀ r, (f r).tokenHash = r.tokenHash) : AuthTokens where
  rows := t.rows.map f
  ids := by
    rw [map_map]
    simpa [comp_def, hid] using t.ids
  hashes := by
    rw [map_map]
    simpa [comp_def, hhash] using t.hashes

private theorem nodup_map_append {α β : Type*} {f : α → β} {l : List α} {a : α}
    (h : (l.map f).Nodup) (ha : f a ∉ l.map f) : ((l ++ [a]).map f).Nodup := by
  rw [map_append, nodup_append]
  refine ⟨h, by simp, ?_⟩
  intro b hb c hc
  obtain rfl : c = f a := by simpa using hc
  exact fun hbc => ha (hbc ▸ hb)

/-- An INSERT, which fails on a key that is taken. -/
def insertRow (r : TokenRow) : Option AuthTokens :=
  if h : r.id ∉ t.rows.map (·.id) ∧ r.tokenHash ∉ t.rows.map (·.tokenHash) then
    some ⟨t.rows ++ [r], nodup_map_append t.ids h.1, nodup_map_append t.hashes h.2⟩
  else none

/-- When a token that is used now expires. -/
def expiryAfter (ttlDays : ℚ) (now : ℕ) : ℕ := now + (ttlDays * 86400000).floor.toNat

/-- A pairing's token; `ttlDays` of none or less means no expiry. -/
def createToken (now : ℕ) (ttlDays : ℚ) (id tokenHash : String) : Option AuthTokens :=
  t.insertRow
    { id, tokenHash
      expiresAt := if 0 < ttlDays then some (expiryAfter ttlDays now) else none
      revokedAt := none, sweptAt := none, lastUsedAt := none }

/-- The primary row with the hash of `auth.json`'s token. -/
def withPrimaryHash (tokenHash : String) (r : TokenRow) : TokenRow :=
  if r.id = PRIMARY_TOKEN_ID then { r with tokenHash } else r

@[simp] theorem withPrimaryHash_id (h : String) (r : TokenRow) :
    (withPrimaryHash h r).id = r.id := by
  unfold withPrimaryHash
  split <;> rfl

private theorem hashes_withPrimaryHash {h : String}
    (hfree : ∀ r ∈ t.rows, r.id ≠ PRIMARY_TOKEN_ID → r.tokenHash ≠ h) :
    ((t.rows.map (withPrimaryHash h)).map (·.tokenHash)).Nodup := by
  rw [map_map]
  refine Nodup.map_on ?_ (Nodup.of_map _ t.ids)
  intro r hr r' hr' heq
  refine inj_on_of_nodup_map t.ids hr hr' ?_
  by_cases hp : r.id = PRIMARY_TOKEN_ID <;> by_cases hp' : r'.id = PRIMARY_TOKEN_ID
  · rw [hp, hp']
  · simp only [comp_apply, withPrimaryHash, if_pos hp, if_neg hp'] at heq
    exact absurd heq.symm (hfree r' hr' hp')
  · simp only [comp_apply, withPrimaryHash, if_neg hp, if_pos hp'] at heq
    exact absurd heq (hfree r hr hp)
  · simp only [comp_apply, withPrimaryHash, if_neg hp, if_neg hp'] at heq
    exact congrArg TokenRow.id (inj_on_of_nodup_map t.hashes hr hr' heq)

/-- The row of `auth.json`'s token is made, or follows it; fails if another row has the hash. -/
def upsertPrimaryToken (tokenHash : String) : Option AuthTokens :=
  if hfree : ∀ r ∈ t.rows, r.id ≠ PRIMARY_TOKEN_ID → r.tokenHash ≠ tokenHash then
    if PRIMARY_TOKEN_ID ∈ t.rows.map (·.id) then
      some ⟨t.rows.map (withPrimaryHash tokenHash),
        by rw [map_map]; simpa [comp_def] using t.ids,
        t.hashes_withPrimaryHash hfree⟩
    else
      t.insertRow
        { id := PRIMARY_TOKEN_ID, tokenHash, expiresAt := none, revokedAt := none
          sweptAt := none, lastUsedAt := none }
  else none

/-- A row is swept, unless it is the primary one or was before. -/
def sweepRow (now : ℕ) (r : TokenRow) : TokenRow :=
  if r.id ≠ PRIMARY_TOKEN_ID ∧ r.sweptAt = none then { r with sweptAt := some now } else r

/-- Every row but the primary one; the first sweep of a row is never rewritten. -/
def sweepNonPrimaryTokens (now : ℕ) : AuthTokens :=
  t.update (sweepRow now) (fun r => by unfold sweepRow; split <;> rfl)
    (fun r => by unfold sweepRow; split <;> rfl)

/-- The rows a revocation changes. -/
def revocable (id : String) (r : TokenRow) : Bool :=
  r.id = id && r.id ≠ PRIMARY_TOKEN_ID && r.revokedAt = none

/-- A row is revoked, if it is the one named and may be. -/
def revokeRow (now : ℕ) (id : String) (r : TokenRow) : TokenRow :=
  if revocable id r then { r with revokedAt := some now } else r

/-- `revokeToken`. -/
def revokeToken (now : ℕ) (id : String) : AuthTokens :=
  t.update (revokeRow now id) (fun r => by unfold revokeRow; split <;> rfl)
    (fun r => by unfold revokeRow; split <;> rfl)

/-- A row is used: its expiry moves, if tokens expire. -/
def touchRow (now : ℕ) (ttlDays : ℚ) (id : String) (r : TokenRow) : TokenRow :=
  if r.id = id then
    { r with
      lastUsedAt := some now
      expiresAt :=
        if 0 < ttlDays then r.expiresAt.map fun _ => expiryAfter ttlDays now else r.expiresAt }
  else r

/-- A use: the expiry of a row that has one slides. -/
def touchToken (now : ℕ) (ttlDays : ℚ) (id : String) : AuthTokens :=
  t.update (touchRow now ttlDays id) (fun r => by unfold touchRow; split <;> rfl)
    (fun r => by unfold touchRow; split <;> rfl)

/-- `getTokenByHash`. -/
def getTokenByHash (tokenHash : String) : Option TokenRow :=
  t.rows.find? (·.tokenHash = tokenHash)

end AuthTokens

/-! ### Validation -/

/-- Why a token is refused. -/
inductive InvalidTokenReason
  | unknown
  | revoked
  | swept
  | expired

/-- What comes of a token. -/
inductive TokenValidation
  | valid (record : TokenRow)
  | invalid (reason : InvalidTokenReason)
  | unavailable

/-- Why a row allows no use, if it does not. -/
def TokenRow.refusal (now : ℕ) (r : TokenRow) : Option InvalidTokenReason :=
  if r.revokedAt ≠ none then some .revoked
  else if r.sweptAt ≠ none then some .swept
  else
    match r.expiresAt with
    | some e => if e ≤ now then some .expired else none
    | none => none

/-- What the store says of a hash; nothing, if it cannot be read. -/
def validateTokenHash (t : AuthTokens) (now : ℕ) (readable : Bool) (tokenHash : String) :
    TokenValidation :=
  if readable then
    match t.getTokenByHash tokenHash with
    | none => .invalid .unknown
    | some record =>
      match record.refusal now with
      | some reason => .invalid reason
      | none => .valid record
  else .unavailable

/-- No use of the row is allowed any more. -/
def TokenRow.Spent (now : ℕ) (r : TokenRow) : Prop :=
  r.revokedAt ≠ none ∨ r.sweptAt ≠ none ∨ ∃ e, r.expiresAt = some e ∧ e ≤ now

/-- A paired credential that was revoked, swept or has expired. -/
def Ended (t : AuthTokens) (now : ℕ) (tokenHash : String) : Prop :=
  ∃ r ∈ t.rows, r.tokenHash = tokenHash ∧ r.id ≠ PRIMARY_TOKEN_ID ∧ r.Spent now

section Store

variable {t t' : AuthTokens} {now now' : ℕ} {readable : Bool} {h : String} {r : TokenRow}

theorem AuthTokens.eq_of_hash (hr : r ∈ t.rows) {r' : TokenRow} (hr' : r' ∈ t.rows)
    (heq : r.tokenHash = r'.tokenHash) : r = r' :=
  inj_on_of_nodup_map t.hashes hr hr' heq

theorem AuthTokens.eq_of_id (hr : r ∈ t.rows) {r' : TokenRow} (hr' : r' ∈ t.rows)
    (heq : r.id = r'.id) : r = r' :=
  inj_on_of_nodup_map t.ids hr hr' heq

theorem AuthTokens.mem_of_getTokenByHash (hget : t.getTokenByHash h = some r) :
    r ∈ t.rows ∧ r.tokenHash = h :=
  ⟨mem_of_find?_eq_some hget, by simpa using find?_some hget⟩

theorem TokenRow.spent_of_refusal {reason : InvalidTokenReason}
    (hr : r.refusal now = some reason) : r.Spent now := by
  unfold TokenRow.refusal at hr
  split at hr
  · next hrevoked => exact .inl hrevoked
  · split at hr
    · next hswept => exact .inr (.inl hswept)
    · split at hr
      · next e he =>
        split at hr
        · next hle => exact .inr (.inr ⟨e, he, hle⟩)
        · cases hr
      · cases hr

theorem TokenRow.not_spent_of_refusal (hr : r.refusal now = none) : ¬ r.Spent now := by
  unfold TokenRow.refusal at hr
  split at hr
  · cases hr
  · next hrevoked =>
    split at hr
    · cases hr
    · next hswept =>
      rintro (hrev | hsw | ⟨e, he, hle⟩)
      · exact hrevoked hrev
      · exact hswept hsw
      · rw [he] at hr
        dsimp only at hr
        rw [if_pos hle] at hr
        cases hr

theorem TokenRow.expires_of_refusal (hr : r.refusal now = some .expired) : r.expiresAt ≠ none := by
  unfold TokenRow.refusal at hr
  split at hr
  · cases hr
  · split at hr
    · cases hr
    · intro hnone
      rw [hnone] at hr
      cases hr

theorem validateTokenHash_of_row (hread : validateTokenHash t now readable h ≠ .unavailable)
    (hknown : validateTokenHash t now readable h ≠ .invalid .unknown) :
    ∃ r ∈ t.rows, r.tokenHash = h ∧ validateTokenHash t now readable h =
      match r.refusal now with
      | some reason => .invalid reason
      | none => .valid r := by
  unfold validateTokenHash at *
  split at hread
  · cases hget : t.getTokenByHash h with
    | none =>
      rw [hget] at hknown
      exact absurd (if_pos ‹_›) hknown
    | some r =>
      obtain ⟨hmem, hhash⟩ := AuthTokens.mem_of_getTokenByHash hget
      exact ⟨r, hmem, hhash, if_pos ‹_›⟩
  · exact absurd rfl hread

theorem validateTokenHash_valid (hv : validateTokenHash t now readable h = .valid r) :
    r ∈ t.rows ∧ r.tokenHash = h ∧ ¬ r.Spent now := by
  obtain ⟨record, hmem, hhash, heq⟩ :=
    validateTokenHash_of_row (by rw [hv]; nofun) (by rw [hv]; nofun)
  rw [hv] at heq
  cases hrefusal : record.refusal now <;> rw [hrefusal] at heq
  case some => cases heq
  case none =>
    obtain rfl := TokenValidation.valid.inj heq
    exact ⟨hmem, hhash, TokenRow.not_spent_of_refusal hrefusal⟩

theorem validateTokenHash_expired (hv : validateTokenHash t now readable h = .invalid .expired) :
    ∃ r ∈ t.rows, r.tokenHash = h ∧ r.Spent now ∧ r.expiresAt ≠ none := by
  obtain ⟨record, hmem, hhash, heq⟩ :=
    validateTokenHash_of_row (by rw [hv]; nofun) (by rw [hv]; nofun)
  rw [hv] at heq
  cases hrefusal : record.refusal now <;> rw [hrefusal] at heq
  case some =>
    obtain rfl := TokenValidation.invalid.inj heq
    exact ⟨record, hmem, hhash, TokenRow.spent_of_refusal hrefusal,
      TokenRow.expires_of_refusal hrefusal⟩
  case none => cases heq

/-! ### Ended for good -/

/-- A credential that has ended is not accepted. -/
theorem Ended.not_valid (he : Ended t now h) : validateTokenHash t now readable h ≠ .valid r := by
  intro hv
  obtain ⟨hr, hhash, hlive⟩ := validateTokenHash_valid hv
  obtain ⟨r', hr', hhash', -, hspent⟩ := he
  obtain rfl := AuthTokens.eq_of_hash hr hr' (hhash.trans hhash'.symm)
  exact hlive hspent

theorem TokenRow.Spent.later (hs : r.Spent now) (hle : now ≤ now') : r.Spent now' := by
  rcases hs with hs | hs | ⟨e, he, hpast⟩
  · exact .inl hs
  · exact .inr (.inl hs)
  · exact .inr (.inr ⟨e, he, Nat.le_trans hpast hle⟩)

section

variable (he : Ended t now h)
include he

/-- It has ended for good. -/
theorem Ended.later (hle : now ≤ now') : Ended t now' h := by
  obtain ⟨r, hr, hhash, hid, hspent⟩ := he
  exact ⟨r, hr, hhash, hid, hspent.later hle⟩

theorem Ended.update {f : TokenRow → TokenRow} {hid : ∀ r, (f r).id = r.id}
    {hhash : ∀ r, (f r).tokenHash = r.tokenHash}
    (hf : ∀ r ∈ t.rows, r.Spent now → (f r).Spent now) : Ended (t.update f hid hhash) now h := by
  obtain ⟨r, hr, hh, hne, hspent⟩ := he
  exact ⟨f r, mem_map_of_mem hr, (hhash r).trans hh, by rwa [hid], hf r hr hspent⟩

theorem Ended.sweep : Ended (t.sweepNonPrimaryTokens now) now h := by
  refine he.update ?_
  intro r _ hspent
  unfold AuthTokens.sweepRow
  split
  · exact .inr (.inl (Option.some_ne_none now))
  · exact hspent

theorem Ended.revokeToken (id : String) :
    Ended (t.revokeToken now id) now h := by
  refine he.update ?_
  intro r _ hspent
  unfold AuthTokens.revokeRow
  split
  · exact .inl (Option.some_ne_none now)
  · exact hspent

theorem Ended.touchToken (ttlDays : ℚ) (hr : r ∈ t.rows)
    (hlive : ¬ r.Spent now) : Ended (t.touchToken now ttlDays r.id) now h := by
  refine he.update ?_
  intro r' hr' hspent
  unfold AuthTokens.touchRow
  split
  · next hid =>
    obtain rfl := AuthTokens.eq_of_id hr' hr hid
    exact absurd hspent hlive
  · exact hspent

end

theorem AuthTokens.rows_of_insertRow (hins : t.insertRow r = some t') :
    t'.rows = t.rows ++ [r] := by
  unfold AuthTokens.insertRow at hins
  split at hins
  · rw [← Option.some.inj hins]
  · cases hins

theorem Ended.insertRow (he : Ended t now h) (hins : t.insertRow r = some t') : Ended t' now h := by
  obtain ⟨r', hr', hrest⟩ := he
  refine ⟨r', ?_, hrest⟩
  rw [AuthTokens.rows_of_insertRow hins]
  exact mem_append_left _ hr'

theorem Ended.upsertPrimaryToken (he : Ended t now h) {tokenHash : String}
    (hup : t.upsertPrimaryToken tokenHash = some t') : Ended t' now h := by
  unfold AuthTokens.upsertPrimaryToken at hup
  split at hup
  · split at hup
    · cases hup
      obtain ⟨r, hr, hhash, hid, hspent⟩ := he
      -- The row is not the primary one, and stays as it is.
      have hsame : AuthTokens.withPrimaryHash tokenHash r = r := if_neg hid
      exact ⟨r, mem_map.mpr ⟨r, hr, hsame⟩, hhash, hid, hspent⟩
    · exact he.insertRow hup
  · cases hup

/-- What is swept has ended. -/
theorem ended_of_sweep (hr : r ∈ t.rows) (hid : r.id ≠ PRIMARY_TOKEN_ID) :
    Ended (t.sweepNonPrimaryTokens now) now r.tokenHash := by
  refine ⟨AuthTokens.sweepRow now r, mem_map_of_mem hr, ?_, ?_, .inr (.inl ?_)⟩
  · unfold AuthTokens.sweepRow
    split <;> rfl
  · unfold AuthTokens.sweepRow
    split <;> exact hid
  · unfold AuthTokens.sweepRow
    split
    · exact Option.some_ne_none now
    · next hneg => exact fun hnone => hneg ⟨hid, hnone⟩

/-- What is revoked has ended. -/
theorem ended_of_revokeToken {id : String} (hr : r ∈ t.rows)
    (hrev : AuthTokens.revocable id r = true) : Ended (t.revokeToken now id) now r.tokenHash := by
  have hid : r.id ≠ PRIMARY_TOKEN_ID := by
    simp only [AuthTokens.revocable, Bool.and_eq_true, decide_eq_true_eq] at hrev
    exact hrev.1.2
  have hrow : AuthTokens.revokeRow now id r = { r with revokedAt := some now } := if_pos hrev
  refine ⟨_, mem_map_of_mem hr, ?_, ?_, .inl ?_⟩
  · rw [hrow]
  · rw [hrow]
    exact hid
  · rw [hrow]
    exact Option.some_ne_none now

/-! ### What stays of a row -/

/-- The primary token never expires. -/
def Durable (t : AuthTokens) : Prop :=
  ∀ r ∈ t.rows, r.id = PRIMARY_TOKEN_ID → r.expiresAt = none

/-- The store has a row of this id and hash. -/
def Has (t : AuthTokens) (id h : String) : Prop := ∃ r ∈ t.rows, r.id = id ∧ r.tokenHash = h

/-- The primary token does not end. -/
theorem Has.not_ended (hp : Has t PRIMARY_TOKEN_ID h) : ¬ Ended t now h := by
  rintro ⟨r, hr, hhash, hid, -⟩
  obtain ⟨r', hr', hid', hhash'⟩ := hp
  obtain rfl := AuthTokens.eq_of_hash hr hr' (hhash.trans hhash'.symm)
  exact hid hid'

/-- What is refused as expired has ended. -/
theorem ended_of_expired (hd : Durable t)
    (hv : validateTokenHash t now readable h = .invalid .expired) : Ended t now h := by
  obtain ⟨r, hr, hhash, hspent, hexpires⟩ := validateTokenHash_expired hv
  exact ⟨r, hr, hhash, fun hid => hexpires (hd r hr hid), hspent⟩

theorem Has.update {id : String} (hp : Has t id h) {f : TokenRow → TokenRow}
    {hid : ∀ r, (f r).id = r.id} {hhash : ∀ r, (f r).tokenHash = r.tokenHash} :
    Has (t.update f hid hhash) id h := by
  obtain ⟨r, hr, hi, hh⟩ := hp
  exact ⟨f r, mem_map_of_mem hr, (hid r).trans hi, (hhash r).trans hh⟩

theorem Has.touchToken {id : String} (hp : Has t id h) (ttlDays : ℚ) (id' : String) :
    Has (t.touchToken now ttlDays id') id h := by
  refine hp.update

theorem Has.revokeToken {id : String} (hp : Has t id h) (id' : String) :
    Has (t.revokeToken now id') id h := by
  refine hp.update

theorem Has.insertRow {id : String} (hp : Has t id h) (hins : t.insertRow r = some t') :
    Has t' id h := by
  obtain ⟨r', hr', hboth⟩ := hp
  refine ⟨r', ?_, hboth⟩
  rw [AuthTokens.rows_of_insertRow hins]
  exact mem_append_left _ hr'

theorem Durable.update (hd : Durable t) {f : TokenRow → TokenRow} {hid : ∀ r, (f r).id = r.id}
    {hhash : ∀ r, (f r).tokenHash = r.tokenHash}
    (hf : ∀ r ∈ t.rows, r.expiresAt = none → (f r).expiresAt = none) :
    Durable (t.update f hid hhash) := by
  intro r hr hp
  obtain ⟨r', hr', rfl⟩ := mem_map.mp hr
  exact hf r' hr' (hd r' hr' ((hid r').symm.trans hp))

theorem Durable.sweep (hd : Durable t) : Durable (t.sweepNonPrimaryTokens now) := by
  refine hd.update ?_
  intro r _ hnone
  unfold AuthTokens.sweepRow
  split <;> exact hnone

theorem Durable.revokeToken (hd : Durable t) (id : String) : Durable (t.revokeToken now id) := by
  refine hd.update ?_
  intro r _ hnone
  unfold AuthTokens.revokeRow
  split <;> exact hnone

theorem Durable.touchToken (hd : Durable t) (ttlDays : ℚ) (id : String) :
    Durable (t.touchToken now ttlDays id) := by
  refine hd.update ?_
  intro r _ hnone
  unfold AuthTokens.touchRow
  split
  · simp [hnone]
  · exact hnone

theorem Durable.insertRow (hd : Durable t) (hins : t.insertRow r = some t')
    (hr : r.id = PRIMARY_TOKEN_ID → r.expiresAt = none) : Durable t' := by
  intro r' hr' hp
  rw [AuthTokens.rows_of_insertRow hins] at hr'
  rcases mem_append.mp hr' with hr' | hr'
  · exact hd r' hr' hp
  · obtain rfl := mem_singleton.mp hr'
    exact hr hp

/-- The primary row has the hash of `auth.json`'s token, and still does not expire. -/
theorem upsertPrimaryToken_spec {tokenHash : String} (hd : Durable t)
    (hup : t.upsertPrimaryToken tokenHash = some t') :
    Durable t' ∧ Has t' PRIMARY_TOKEN_ID tokenHash := by
  unfold AuthTokens.upsertPrimaryToken at hup
  split at hup
  · split at hup
    · next hthere =>
      cases hup
      constructor
      · intro r hr hp
        obtain ⟨r', hr', rfl⟩ := mem_map.mp hr
        rw [AuthTokens.withPrimaryHash_id] at hp
        unfold AuthTokens.withPrimaryHash
        split <;> exact hd r' hr' hp
      · obtain ⟨r, hr, hid⟩ := mem_map.mp hthere
        refine ⟨_, mem_map_of_mem hr, ?_, ?_⟩
        · rw [AuthTokens.withPrimaryHash_id]
          exact hid
        · rw [AuthTokens.withPrimaryHash, if_pos hid]
    · refine ⟨hd.insertRow hup fun _ => rfl, ?_⟩
      refine ⟨⟨PRIMARY_TOKEN_ID, tokenHash, none, none, none, none⟩, ?_, rfl, rfl⟩
      rw [AuthTokens.rows_of_insertRow hup]
      exact mem_append_right _ mem_cons_self
  · cases hup

end Store

end Lasterm.Hub.Auth
