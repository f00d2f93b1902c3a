import Mathlib.Logic.Basic
import Mathlib.Tactic.Basic
import Mathlib.Data.Nat.Notation

/-!
# Putting a file in place

A whole temporary takes its file's name, without replacing anything, or replacing what is there when
that was asked.  No host offers this as one request: each backend makes it of links, renames, copies
and removals, and reads from their answers what came of it.

Each request is granted, refused, or, where the host is reached over a channel or a script does the
work, left without an answer.  A request that is granted still fails where the names do not allow
it.  That the two names are two links of one file, of which a rename does nothing, is left out.

## Main definitions

* `Names` — the temporary's name and the file's, with what the scripts put elsewhere.
* `Backend.place` — a placement; `Backend.Misleads` — the hosts whose answers are not enough.

## Main results

* `place_truthful_iff` — a placement tells the truth exactly where its host does not mislead it.
-/

namespace Lasterm.Transfer.Placement

/-- What has a name. -/
inductive Entry (β : Type*)
  | file (bytes : β)
  | folder
  | link (toFolder : Bool)
  deriving DecidableEq

/-- What the host holds. -/
structure Names (β : Type*) where
  temp : Option (Entry β)
  target : Option (Entry β)
  /-- What a folder that has the target's name holds under the temporary's. -/
  inside : Option (Entry β)
  aside : Option (Entry β)
  deriving DecidableEq

/-- Why a placement failed. -/
inductive Failure
  /-- `ALREADY_EXISTS`: a folder has that name. -/
  | folderHasName
  /-- `NOT_FOUND`: the folder it goes in is not there. -/
  | parentMissing
  /-- `NOT_FOUND`: its temporary is gone. -/
  | tempGone
  | refused
  | interrupted
  deriving DecidableEq

/-- What a placement comes to: a result, or what it throws. -/
inductive Outcome (β : Type*)
  | placed
  | existing (there : Option (Entry β))
  | threw (error : Failure)
  deriving DecidableEq

variable {β : Type*}

/-- A folder itself. -/
def isFolder : Option (Entry β) → Bool
  | some .folder => true
  | _ => false

/-- A folder, or a link to one: what a shell's `[ -d ]` finds. -/
def folderLike : Option (Entry β) → Bool
  | some .folder => true
  | some (.link toFolder) => toFolder
  | _ => false

namespace Names

/-- The temporary takes the target's name. -/
def moveIn (n : Names β) : Names β := { n with target := n.temp, temp := none }

/-- The target's name is given to the temporary's file as well. -/
def linkIn (n : Names β) : Names β := { n with target := n.temp }

/-- The temporary is gone. -/
def removeTemp (n : Names β) : Names β := { n with temp := none }

/-- The name is free. -/
def removeTarget (n : Names β) : Names β := { n with target := none }

end Names

/-! ### SFTP -/

/-- What a host does with a request: `lost` is one that it never answers, the channel having closed. -/
inductive Answer
  | granted
  | refused
  | lost (applied : Bool)
  deriving DecidableEq

/-- What the hub reads. -/
inductive Reply
  | ok
  /-- `NO_SUCH_FILE`. -/
  | missing
  | failed
  /-- The server does not offer the extension: nothing was sent. -/
  | unsupported
  | closed
  deriving DecidableEq

/-- A request that the names allow where `can`. -/
def request (answer : Answer) (can : Bool) (effect : Names β → Names β) (n : Names β) :
    Reply × Names β :=
  match answer with
  | .granted => if can then (.ok, effect n) else (.failed, n)
  | .refused => (.failed, n)
  | .lost applied => (.closed, if applied && can then effect n else n)

/-- An SFTP server, and what it does with the requests of a placement: it gets each at most once. -/
structure Sftp where
  /-- `posix-rename@openssh.com` is offered. -/
  offersPosixRename : Bool
  /-- `hardlink@openssh.com` is offered. -/
  offersHardlink : Bool
  /-- Its plain rename replaces what has the name. -/
  renameReplaces : Bool
  parentThere : Bool
  lstat : Answer
  lstatParent : Answer
  posixRename : Answer
  hardlink : Answer
  rename : Answer
  unlink : Answer

namespace Sftp

variable (s : Sftp)

/-- `ext_openssh_rename`. -/
def requestPosixRename (n : Names β) : Reply × Names β :=
  if s.offersPosixRename then
    request s.posixRename (!isFolder n.target) Names.moveIn n
  else (.unsupported, n)

/-- `ext_openssh_hardlink`. -/
def requestHardlink (n : Names β) : Reply × Names β :=
  if s.offersHardlink then request s.hardlink n.target.isNone Names.linkIn n
  else (.unsupported, n)

/-- `rename`: draft version 3 refuses a name that is taken, not every server does. -/
def requestRename (n : Names β) : Reply × Names β :=
  request s.rename (n.target.isNone || s.renameReplaces && !isFolder n.target) Names.moveIn n

/-- `unlink`, of a name that holds `entry`. -/
def requestUnlink (entry : Option (Entry β)) (effect : Names β → Names β) (n : Names β) :
    Reply × Names β :=
  if s.unlink = .granted ∧ entry = none then (.missing, n)
  else request s.unlink (entry.isSome && !isFolder entry) effect n

/-- The source's `placementFailed`. -/
def placementFailed (reply : Reply) (n : Names β) : Outcome β :=
  if reply = .closed then .threw .interrupted
  else
    match s.lstat with
    | .refused => .threw .refused
    | .lost _ => .threw .interrupted
    | .granted =>
      if n.target.isSome then .existing n.target
      else
        match s.lstatParent with
        | .lost _ => .threw .interrupted
        | .granted => if s.parentThere then .threw .refused else .threw .parentMissing
        | .refused => .threw .refused

/-- What a failed request throws. -/
def failure : Reply → Failure
  | .closed => .interrupted
  | _ => .refused

/-- The plain rename of a replacement, at its end. -/
def renameOver (n : Names β) : Outcome β × Names β :=
  match s.requestRename n with
  | (.ok, n) => (.placed, n)
  | (reply, n) => (.threw (failure reply), n)

/-- `place` over SFTP. -/
def place (n : Names β) (replace : Bool) : Outcome β × Names β :=
  if replace then
    match s.lstat with
    | .refused => (.threw .refused, n)
    | .lost _ => (.threw .interrupted, n)
    | .granted =>
      if isFolder n.target then (.threw .folderHasName, n)
      else
        match s.requestPosixRename n with
        | (.ok, n) => (.placed, n)
        | (.unsupported, n) =>
          -- no POSIX rename: the name is freed, then taken
          if n.target.isSome then
            match s.requestUnlink n.target Names.removeTarget n with
            | (.ok, n) | (.missing, n) => s.renameOver n
            | (reply, n) => (.threw (failure reply), n)
          else s.renameOver n
        | (reply, n) => (.threw (failure reply), n)
  else
    match s.requestHardlink n with
    | (.ok, n) =>
      match s.requestUnlink n.temp Names.removeTemp n with
      | (.ok, n) | (.missing, n) => (.placed, n)
      | (reply, n) => (.threw (failure reply), n)
    | (.unsupported, n) =>
      match s.requestRename n with
      | (.ok, n) => (.placed, n)
      | (reply, n) => (s.placementFailed reply n, n)
    | (reply, n) => (s.placementFailed reply n, n)

end Sftp

/-! ### The local host -/

/-- The codes that a placement tells apart. -/
inductive Errno
  | EEXIST
  | EPERM
  | EBUSY
  | EACCES
  | ENOTSUP
  | EOPNOTSUPP
  | ENOSYS
  | EXDEV
  | EINVAL
  | EMLINK
  | other
  deriving DecidableEq

/-- The source's `NO_HARD_LINKS`. -/
def noHardLinks : List Errno :=
  [.EPERM, .ENOTSUP, .EOPNOTSUPP, .ENOSYS, .EXDEV, .EINVAL, .EMLINK]

/-- A rename that is refused so is tried again. -/
def busyCodes : List Errno := [.EPERM, .EBUSY, .EACCES]

/-- What the local file system does with the calls of a placement: the code of each that it fails. -/
structure Disk (β : Type*) where
  /-- Whether what has the target's name can be looked at. -/
  stat : Bool
  renames : ℕ → Option Errno
  link : Option Errno
  /-- A copy that fails leaves nothing of the target, or some bytes of it. -/
  copyFile : Option (Errno × Option β)
  /-- Whether the temporary can be looked at, for its time. -/
  statTemp : Bool
  rm : Bool

namespace Disk

/-- `RENAME_ATTEMPTS`. -/
def renameAttempts : ℕ := 10

variable (d : Disk β)

/-- `fs.rename` onto the target: what an attempt fails with, if it does. -/
def renameError (n : Names β) (attempt : ℕ) : Option Errno :=
  (d.renames attempt).or (if isFolder n.target then some .other else none)

/-- The loop of renames, `left` more after this one. -/
def renameFrom (n : Names β) (attempt : ℕ) (left : ℕ) : Outcome β × Names β :=
  match d.renameError n attempt, left with
  | none, _ => (.placed, n.moveIn)
  | some _, 0 => (.threw .refused, n)
  | some code, left + 1 =>
    if code ∈ busyCodes then renameFrom n (attempt + 1) left else (.threw .refused, n)

/-- The source's `exists`. -/
def existing (n : Names β) : Outcome β :=
  .existing (if d.stat then n.target else none)

/-- The source's `remove`, which never rejects. -/
def remove (n : Names β) : Names β :=
  if d.rm then n.removeTemp else n

/-- `fs.link`: what it fails with, if it does. -/
def linkError (n : Names β) : Option Errno :=
  d.link.or (if n.target.isSome then some .EEXIST else none)

/-- `fs.copyFile` with `COPYFILE_EXCL`. -/
def copy (n : Names β) : Option Errno × Names β :=
  if n.target.isSome then (some .EEXIST, n)
  else
    match d.copyFile with
    | none => (none, n.linkIn)
    | some (code, left) => (some code, { n with target := left.map .file })

/-- `place` of the local disk. -/
def place (n : Names β) (replace : Bool) : Outcome β × Names β :=
  if replace then
    if d.stat && isFolder n.target then (.threw .folderHasName, n)
    else d.renameFrom n 1 (renameAttempts - 1)
  else
    match d.linkError n with
    | none => (.placed, d.remove n.linkIn)
    | some code =>
      if code = .EEXIST then (d.existing n, n)
      else if code ∉ noHardLinks then (.threw .refused, n)
      else
        match d.copy n with
        | (some code, n) => if code = .EEXIST then (d.existing n, n) else (.threw .refused, n)
        | (none, n) =>
          -- a copy is a new file: it takes the temporary's time again, and `utimes` may fail
          if d.statTemp then (.placed, d.remove n) else (.threw .refused, n)

end Disk

/-! ### Scripts -/

/-- The operations of the scripts. -/
inductive Op
  | start
  | link
  | remove
  | move
  | setAside
  | putBack
  | dropAside
  deriving DecidableEq

/-- How a script goes: which of its operations the host lets happen, and the one after which it is
stopped, or its answer lost. -/
structure Script where
  grants : Op → Bool
  stop : Option Op

namespace Script

variable (s : Script)

/-- An operation, and the script after it, told whether it was done. -/
def op (o : Op) (can : Bool) (effect : Names β → Names β) (n : Names β)
    (rest : Bool → Names β → Outcome β × Names β) : Outcome β × Names β :=
  let done := s.grants o && can
  let n := if done then effect n else n
  if s.stop = some o then (.threw .interrupted, n) else rest done n

/-- `ln` and `mv` onto a folder put what they are given inside it. -/
def into (effect inside : Names β → Names β) (n : Names β) : Names β :=
  if folderLike n.target then inside n else effect n

/-- `posixPlaceScript`. -/
def posixPlace (n : Names β) (replace : Bool) : Outcome β × Names β :=
  if s.stop = some .start then (.threw .interrupted, n)
  else if replace then
    if folderLike n.target then (.threw .folderHasName, n)
    else
      s.op .move n.temp.isSome Names.moveIn n fun moved n =>
        if moved then (.placed, n)
        else if n.temp.isNone then (.threw .tempGone, n)
        else (.threw .refused, n)
  else if n.target.isSome then (.existing n.target, n)
  else
    s.op .link n.temp.isSome (into Names.linkIn fun n => { n with inside := n.temp }) n
      fun linked n =>
        if linked then
          if folderLike n.target then
            s.op .remove true (fun n => { n with inside := none }) n fun _ n =>
              (.existing n.target, n)
          else s.op .remove true Names.removeTemp n fun _ n => (.placed, n)
        else if n.target.isSome then (.existing n.target, n)
        else if n.temp.isNone then (.threw .tempGone, n)
        else
          s.op .move n.target.isNone
            (into Names.moveIn fun n => { n with inside := n.temp, temp := none }) n fun moved n =>
              if moved then
                if folderLike n.target then
                  s.op .putBack true (fun n => { n with temp := n.inside, inside := none }) n
                    fun _ n => (.existing n.target, n)
                else (.placed, n)
              else if n.target.isSome then (.existing n.target, n)
              else (.threw .refused, n)

/-- The move of `windowsPlaceScript`, after what was there is set aside, if anything was. -/
def windowsMoveIn (wasThere : Bool) (n : Names β) : Outcome β × Names β :=
  s.op .move n.target.isNone Names.moveIn n fun moved n =>
    if moved then
      if wasThere then
        s.op .dropAside true (fun n => { n with aside := none }) n fun _ n => (.placed, n)
      else (.placed, n)
    else if wasThere then
      s.op .putBack n.target.isNone (fun n => { n with target := n.aside, aside := none }) n
        fun _ n => (.threw .refused, n)
    else (.threw .refused, n)

/-- `windowsPlaceScript`. -/
def windowsPlace (n : Names β) (replace : Bool) : Outcome β × Names β :=
  if s.stop = some .start then (.threw .interrupted, n)
  else if n.temp.isNone then (.threw .tempGone, n)
  else if replace then
    if folderLike n.target then (.threw .folderHasName, n)
    else if n.target.isSome then
      s.op .setAside true (fun n => { n with aside := n.target, target := none }) n fun done n =>
        if done then s.windowsMoveIn true n else (.threw .refused, n)
    else s.windowsMoveIn false n
  else if n.target.isSome then (.existing n.target, n)
  else
    s.op .move n.target.isNone Names.moveIn n fun moved n =>
      if moved then (.placed, n)
      else if n.target.isSome then (.existing n.target, n)
      else (.threw .refused, n)

end Script

/-- A backend, with what its host does. -/
inductive Backend (β : Type*)
  | sftp (s : Sftp)
  | onDisk (d : Disk β)
  | posix (s : Script)
  | windows (s : Script)

/-- `place`, of each backend. -/
def Backend.place (b : Backend β) (n : Names β) (replace : Bool) : Outcome β × Names β :=
  match b with
  | .sftp s => s.place n replace
  | .onDisk d => d.place n replace
  | .posix s => s.posixPlace n replace
  | .windows s => s.windowsPlace n replace

/-! ### Telling the truth -/

/-- What a placement says is what the host holds: `placed`, and the target holds the temporary's bytes
and the temporary is gone; anything else, and both names are as they were.  Without replacing, it
does not say `placed` where the name was taken. -/
def Truthful (replace : Bool) (before : Names β) (result : Outcome β × Names β) : Prop :=
  match result.1 with
  | .placed =>
    result.2.target = before.temp ∧ result.2.temp = none ∧ (replace = false → before.target = none)
  | .existing _ | .threw _ =>
    result.2.target = before.target ∧ result.2.temp = before.temp

/-- The whole temporary is there. -/
def Names.withTemp (n : Names β) (bytes : β) : Names β :=
  { n with temp := some (.file bytes) }

section judging

variable {replace : Bool} {before n : Names β} {bytes : β}

/-- A placement that changes nothing, and does not say `placed`. -/
theorem truthful_of_unchanged {outcome : Outcome β} (h : outcome ≠ .placed) :
    Truthful replace before (outcome, before) := by
  cases outcome with
  | placed => exact absurd rfl h
  | existing | threw => exact ⟨rfl, rfl⟩

theorem truthful_threw_iff {error : Failure} :
    Truthful replace before (.threw error, n) ↔
      n.target = before.target ∧ n.temp = before.temp :=
  Iff.rfl

theorem truthful_existing_iff {there : Option (Entry β)} :
    Truthful replace before (.existing there, n) ↔
      n.target = before.target ∧ n.temp = before.temp :=
  Iff.rfl

theorem truthful_placed_iff :
    Truthful replace before (.placed, n) ↔
      n.target = before.temp ∧ n.temp = none ∧ (replace = false → before.target = none) :=
  Iff.rfl

theorem not_truthful_of_gone {error : Failure} (htemp : before.temp = some (.file bytes))
    (h : n.temp = none) : ¬Truthful replace before (.threw error, n) := by
  rw [truthful_threw_iff, h, htemp]
  exact fun hboth => nomatch hboth.2

theorem not_truthful_of_taken {error : Failure} (hfree : before.target = none)
    (h : n.target ≠ none) : ¬Truthful replace before (.threw error, n) := by
  rw [truthful_threw_iff, hfree]
  exact fun hboth => h hboth.1

theorem not_truthful_of_freed {error : Failure} (htaken : before.target ≠ none)
    (h : n.target = none) : ¬Truthful replace before (.threw error, n) := by
  rw [truthful_threw_iff, h]
  exact fun hboth => htaken hboth.1.symm

theorem truthful_moveIn (h : replace = false → before.target = none) :
    Truthful replace before (.placed, before.moveIn) :=
  ⟨rfl, rfl, h⟩

end judging

/-- Where an SFTP server misleads: an answer is lost to a request that was carried out; or the name
was freed for a rename that is not granted; or the temporary is not removed once it was linked; or
there are no links and its rename replaces what has the name. -/
def Sftp.Misleads (s : Sftp) (target : Option (Entry β)) (replace : Bool) : Prop :=
  if replace then
    s.lstat = .granted ∧ isFolder target = false ∧
      if s.offersPosixRename then s.posixRename = .lost true
      else if target = none then s.rename = .lost true
      else s.unlink = .lost true ∨ s.unlink = .granted ∧ s.rename ≠ .granted
  else if s.offersHardlink then
    target = none ∧ (s.hardlink = .lost true ∨ s.hardlink = .granted ∧ s.unlink ≠ .granted)
  else if target = none then s.rename = .lost true
  else s.renameReplaces ∧ isFolder target = false ∧ (s.rename = .granted ∨ s.rename = .lost true)

/-- Where the local host does, without replacing: the temporary is not removed; or, where a copy
stands in for the link, it leaves some bytes, or the temporary cannot be looked at after it. -/
def Disk.Misleads (d : Disk β) (target : Option (Entry β)) (replace : Bool) : Prop :=
  replace = false ∧ target = none ∧
    match d.link with
    | none => d.rm = false
    | some code =>
      code ∈ noHardLinks ∧
        match d.copyFile with
        | some (_, left) => left ≠ none
        | none => d.statTemp = false ∨ d.rm = false

/-- Where a POSIX host does: the script is stopped after it changed a name, or its temporary is not
removed once it was linked. -/
def Script.PosixMisleads (s : Script) (target : Option (Entry β)) (replace : Bool) : Prop :=
  if replace then folderLike target = false ∧ s.grants .move ∧ s.stop = some .move
  else
    target = none ∧ s.stop ≠ some .start ∧
      if s.grants .link then
        s.stop = some .link ∨ s.stop = some .remove ∨ s.grants .remove = false
      else s.stop ≠ some .link ∧ s.grants .move ∧ s.stop = some .move

/-- Where a Windows host does: the script is stopped after it changed a name, or the file that was set
aside is not put back. -/
def Script.WindowsMisleads (s : Script) (target : Option (Entry β)) (replace : Bool) : Prop :=
  if target = none then s.grants .move ∧ s.stop = some .move
  else
    replace ∧ folderLike target = false ∧ s.stop ≠ some .start ∧ s.grants .setAside ∧
      (s.stop = some .setAside ∨
        if s.grants .move then s.stop = some .move ∨ s.stop = some .dropAside
        else s.stop = some .move ∨ s.grants .putBack = false)

/-- The refusals and lost answers under which a placement does not tell the truth. -/
def Backend.Misleads (b : Backend β) (target : Option (Entry β)) (replace : Bool) : Prop :=
  match b with
  | .sftp s => s.Misleads target replace
  | .onDisk d => d.Misleads target replace
  | .posix s => s.PosixMisleads target replace
  | .windows s => s.WindowsMisleads target replace

/-! ### The local host -/

theorem Disk.renameFrom_eq (d : Disk β) (n : Names β) (attempt left : ℕ) :
    d.renameFrom n attempt left = (.placed, n.moveIn) ∨
      d.renameFrom n attempt left = (.threw .refused, n) := by
  induction left generalizing attempt with
  | zero =>
    unfold renameFrom
    cases d.renameError n attempt with
    | none => exact .inl rfl
    | some code => exact .inr rfl
  | succ left ih =>
    unfold renameFrom
    cases d.renameError n attempt with
    | none => exact .inl rfl
    | some code =>
      by_cases hbusy : code ∈ busyCodes
      · simpa only [if_pos hbusy] using ih (attempt + 1)
      · exact .inr (if_neg hbusy)

theorem Disk.replace_truthful (d : Disk β) (n : Names β) :
    Truthful true n (d.place n true) := by
  unfold place
  rw [if_pos rfl]
  split
  · exact truthful_of_unchanged nofun
  · obtain h | h := d.renameFrom_eq n 1 (renameAttempts - 1)
    · rw [h]
      exact truthful_moveIn nofun
    · rw [h]
      exact truthful_of_unchanged nofun

theorem Disk.place_taken (d : Disk β) {n : Names β} (h : n.target.isSome) :
    Truthful false n (d.place n false) := by
  have hcopy : d.copy n = (some .EEXIST, n) := if_pos h
  have hlink : ∃ code, d.linkError n = some code := by
    rw [linkError, if_pos h]
    cases d.link with
    | none => exact ⟨.EEXIST, rfl⟩
    | some code => exact ⟨code, rfl⟩
  obtain ⟨code, hcode⟩ := hlink
  unfold place
  rw [if_neg Bool.false_ne_true, hcode, hcopy]
  simp only
  split
  · exact truthful_of_unchanged nofun
  · split <;> exact truthful_of_unchanged nofun

theorem Disk.remove_truthful_iff {d : Disk β} {n : Names β} {bytes : β} (htarget : n.target = none) :
    Truthful false (n.withTemp bytes) (.placed, d.remove (n.withTemp bytes).linkIn) ↔ d.rm = true := by
  cases hrm : d.rm <;>
    simp [truthful_placed_iff, Disk.remove, hrm, Names.linkIn, Names.removeTemp, Names.withTemp,
      htarget]

theorem Disk.place_truthful (d : Disk β) (n : Names β) (bytes : β) (replace : Bool) :
    Truthful replace (n.withTemp bytes) (d.place (n.withTemp bytes) replace) ↔
      ¬d.Misleads n.target replace := by
  cases replace with
  | true => exact iff_of_true (d.replace_truthful _) fun h => nomatch h.1
  | false =>
    cases htarget : n.target with
    | some entry =>
      exact iff_of_true (d.place_taken (by simp [Names.withTemp, htarget])) fun h => nomatch h.2.1
    | none =>
      have hnone : (n.withTemp bytes).target = none := htarget
      unfold place Misleads
      rw [if_neg Bool.false_ne_true, linkError, hnone]
      cases hlink : d.link with
      | none =>
        rw [Option.none_or, if_neg (by simp)]
        simp [remove_truthful_iff htarget]
      | some code =>
        simp only [Option.some_or]
        by_cases hexists : code = .EEXIST
        · subst hexists
          rw [if_pos rfl]
          exact iff_of_true (truthful_of_unchanged nofun) fun h => absurd h.2.2.1 (by decide)
        · rw [if_neg hexists]
          by_cases hcode : code ∈ noHardLinks
          · rw [if_neg (not_not.mpr hcode), copy, hnone]
            cases hcopy : d.copyFile with
            | none =>
              cases hstat : d.statTemp with
              | false => simp [truthful_threw_iff, Names.linkIn, Names.withTemp, htarget, hcode]
              | true => simp [remove_truthful_iff htarget, hcode]
            | some failed =>
              obtain ⟨code', left⟩ := failed
              have hleft : left.map Entry.file = none ↔ left = none := Option.map_eq_none_iff
              by_cases hexists' : code' = .EEXIST <;>
                simp [hexists', Disk.existing, truthful_existing_iff, truthful_threw_iff, Names.withTemp, htarget,
                  hleft, hcode]
          · rw [if_pos hcode]
            exact iff_of_true (truthful_of_unchanged nofun) fun h => hcode h.2.2.1

/-! ### Scripts -/

section operations

variable {s : Script} {o : Op} {can : Bool} {effect : Names β → Names β} {n : Names β}
  {rest : Bool → Names β → Outcome β × Names β}

theorem Script.op_stopped (h : s.stop = some o) :
    s.op o can effect n rest =
      (.threw .interrupted, if s.grants o && can then effect n else n) := by
  rw [op, if_pos h]

theorem Script.op_done (h : s.stop ≠ some o) (hgrants : s.grants o = true) (hcan : can = true) :
    s.op o can effect n rest = rest true (effect n) := by
  rw [op, if_neg h, hgrants, hcan, Bool.true_and, if_pos rfl]

theorem Script.op_refused (h : s.stop ≠ some o) (hgrants : s.grants o = false) :
    s.op o can effect n rest = rest false n := by
  rw [op, if_neg h, hgrants, Bool.false_and, if_neg Bool.false_ne_true]

end operations

section scripts

variable {s : Script} {n : Names β} {bytes : β}

section

variable (htemp : n.temp = some (.file bytes))
include htemp

/-- `mv -f`, onto anything but a folder. -/
theorem Script.posixReplace_truthful_iff (hstart : s.stop ≠ some .start) :
    Truthful true n (s.posixPlace n true) ↔ ¬s.PosixMisleads n.target true := by
  unfold posixPlace PosixMisleads
  rw [if_neg hstart, if_pos rfl, if_pos rfl]
  by_cases hfolder : folderLike n.target = true
  · rw [if_pos hfolder, hfolder]
    exact iff_of_true (truthful_of_unchanged nofun) fun h => nomatch h.1
  · rw [if_neg hfolder, (Bool.not_eq_true _).mp hfolder]
    have hcan : n.temp.isSome = true := by rw [htemp]; rfl
    by_cases hstop : s.stop = some .move
    · rw [op_stopped hstop, hcan, Bool.and_true]
      cases hmove : s.grants .move with
      | false => exact iff_of_true (truthful_of_unchanged nofun) fun h => nomatch h.2.1
      | true =>
        exact iff_of_false (not_truthful_of_gone htemp rfl) fun h => h ⟨rfl, rfl, hstop⟩
    · refine iff_of_true ?_ fun h => hstop h.2.2
      cases hmove : s.grants .move with
      | true =>
        rw [op_done hstop hmove hcan]
        exact truthful_moveIn nofun
      | false =>
        rw [op_refused hstop hmove, if_neg Bool.false_ne_true, htemp]
        exact truthful_of_unchanged nofun

/-- `ln`, then `rm`; or, where no link is made, `mv`. -/
theorem Script.posixNew_truthful_iff (hstart : s.stop ≠ some .start) :
    Truthful false n (s.posixPlace n false) ↔ ¬s.PosixMisleads n.target false := by
  unfold posixPlace PosixMisleads
  rw [if_neg hstart, if_neg Bool.false_ne_true, if_neg Bool.false_ne_true]
  cases htarget : n.target with
  | some entry =>
    rw [if_pos (by rfl)]
    exact iff_of_true (truthful_of_unchanged nofun) fun h => nomatch h.1
  | none =>
    have hcan : n.temp.isSome = true := by rw [htemp]; rfl
    have hinto : ∀ effect inside : Names β → Names β, into effect inside n = effect n := by
      intro effect inside
      rw [into, htarget]
      rfl
    rw [if_neg (by simp)]
    cases hlink : s.grants .link with
    | true =>
      rw [if_pos rfl]
      by_cases hstop : s.stop = some .link
      · rw [op_stopped hstop, hlink, hcan, hinto]
        refine iff_of_false (not_truthful_of_taken htarget ?_)
          fun h => h ⟨rfl, hstart, .inl hstop⟩
        simp [Names.linkIn, htemp]
      · have hfile : folderLike n.linkIn.target = false := by
          rw [Names.linkIn, htemp]
          rfl
        rw [op_done hstop hlink hcan, hinto]
        simp only [if_true, hfile, Bool.false_eq_true, if_false]
        by_cases hstop' : s.stop = some .remove
        · rw [op_stopped hstop']
          refine iff_of_false (not_truthful_of_taken htarget ?_)
            fun h => h ⟨trivial, hstart, .inr (.inl hstop')⟩
          split <;> simp [Names.linkIn, Names.removeTemp, htemp]
        · cases hremove : s.grants .remove with
          | true =>
            rw [op_done hstop' hremove rfl]
            refine iff_of_true ⟨rfl, rfl, fun _ => htarget⟩ ?_
            simp [hstop, hstop']
          | false =>
            rw [op_refused hstop' hremove]
            refine iff_of_false (fun h => ?_) fun h => h ⟨trivial, hstart, .inr (.inr rfl)⟩
            exact nomatch htemp.symm.trans h.2.1
    | false =>
      rw [if_neg Bool.false_ne_true]
      by_cases hstop : s.stop = some .link
      · rw [op_stopped hstop, hlink]
        exact iff_of_true (truthful_of_unchanged nofun) fun h => h.2.2.1 hstop
      · have hfile : folderLike n.moveIn.target = false := by
          rw [Names.moveIn, htemp]
          rfl
        rw [op_refused hstop hlink]
        simp only [Bool.false_eq_true, if_false, htarget, htemp, Option.isSome_none,
          Option.isNone_some, Option.isNone_none]
        by_cases hstop' : s.stop = some .move
        · rw [op_stopped hstop', hinto]
          cases hmove : s.grants .move with
          | true =>
            exact iff_of_false (not_truthful_of_gone htemp rfl)
              fun h => h ⟨trivial, hstart, hstop, rfl, hstop'⟩
          | false => exact iff_of_true (truthful_of_unchanged nofun) fun h => nomatch h.2.2.2.1
        · refine iff_of_true ?_ fun h => hstop' h.2.2.2.2
          cases hmove : s.grants .move with
          | true =>
            rw [op_done hstop' hmove rfl, hinto, if_pos rfl, hfile]
            exact truthful_moveIn fun _ => htarget
          | false =>
            rw [op_refused hstop' hmove, if_neg Bool.false_ne_true, htarget]
            exact truthful_of_unchanged nofun

theorem Script.posixPlace_truthful_iff (replace : Bool) :
    Truthful replace n (s.posixPlace n replace) ↔ ¬s.PosixMisleads n.target replace := by
  by_cases hstart : s.stop = some .start
  · rw [posixPlace, if_pos hstart]
    refine iff_of_true (truthful_of_unchanged nofun) ?_
    cases replace <;> simp [PosixMisleads, hstart]
  · cases replace with
    | true => exact posixReplace_truthful_iff htemp hstart
    | false => exact posixNew_truthful_iff htemp hstart

theorem Script.move_truthful_iff (htarget : n.target = none)
    (replace : Bool) {k : Bool → Names β → Outcome β × Names β}
    (hmoved : ∀ n, k true n = (.placed, n)) (hrefused : k false n = (.threw .refused, n)) :
    Truthful replace n (s.op .move n.target.isNone Names.moveIn n k) ↔
      ¬(s.grants .move ∧ s.stop = some .move) := by
  have hcan : n.target.isNone = true := by rw [htarget]; rfl
  by_cases hstop : s.stop = some .move
  · rw [op_stopped hstop, hcan, Bool.and_true]
    cases hmove : s.grants .move with
    | true => exact iff_of_false (not_truthful_of_gone htemp rfl) fun h => h ⟨rfl, hstop⟩
    | false => exact iff_of_true (truthful_of_unchanged nofun) fun h => nomatch h.1
  · refine iff_of_true ?_ fun h => hstop h.2
    cases hmove : s.grants .move with
    | true =>
      rw [op_done hstop hmove hcan, hmoved]
      exact truthful_moveIn fun _ => htarget
    | false =>
      rw [op_refused hstop hmove, hrefused]
      exact truthful_of_unchanged nofun

end

/-- The move over a file that was set aside, which goes back where the temporary does not take the
name. -/
theorem Script.windowsMoveOver_truthful_iff {before : Names β}
    (htemp : before.temp = some (.file bytes)) (htaken : before.target ≠ none) :
    Truthful true before
        (s.windowsMoveIn true { before with aside := before.target, target := none }) ↔
      ¬(if s.grants .move then s.stop = some .move ∨ s.stop = some .dropAside
        else s.stop = some .move ∨ s.grants .putBack = false) := by
  unfold windowsMoveIn
  by_cases hstop : s.stop = some .move
  · rw [op_stopped hstop]
    refine iff_of_false ?_ (by simp [hstop])
    cases hmove : s.grants .move with
    | true => exact not_truthful_of_gone htemp rfl
    | false => exact not_truthful_of_freed htaken rfl
  · cases hmove : s.grants .move with
    | true =>
      rw [op_done hstop hmove Option.isNone_none]
      simp only [if_true]
      by_cases hstop' : s.stop = some .dropAside
      · rw [op_stopped hstop']
        refine iff_of_false (not_truthful_of_gone htemp ?_) (by simp [hstop'])
        split <;> rfl
      · refine iff_of_true ?_ (by simp [hstop, hstop'])
        cases hdrop : s.grants .dropAside with
        | true =>
          rw [op_done hstop' hdrop rfl]
          exact ⟨rfl, rfl, nofun⟩
        | false =>
          rw [op_refused hstop' hdrop]
          exact ⟨rfl, rfl, nofun⟩
    | false =>
      rw [op_refused hstop hmove]
      simp only [Bool.false_eq_true, if_false, if_true, hstop, false_or]
      cases hback : s.grants .putBack <;> by_cases hstop' : s.stop = some .putBack <;>
        simp [op, hback, hstop', truthful_threw_iff, Ne.symm htaken]

section

variable (htemp : n.temp = some (.file bytes))
include htemp

theorem Script.windowsReplace_truthful_iff
    (hstart : s.stop ≠ some .start) {entry : Entry β} (htarget : n.target = some entry)
    (hfolder : folderLike n.target = false) :
    Truthful true n (s.windowsPlace n true) ↔ ¬s.WindowsMisleads n.target true := by
  have htaken : n.target ≠ none := by rw [htarget]; nofun
  unfold windowsPlace WindowsMisleads
  rw [if_neg hstart, if_neg htaken, htemp, if_neg (by simp), if_pos rfl,
    if_neg (by simp [hfolder]), if_pos (by simp [htarget])]
  by_cases hstop : s.stop = some .setAside
  · rw [op_stopped hstop]
    cases haside : s.grants .setAside with
    | true =>
      exact iff_of_false (not_truthful_of_freed htaken rfl)
        fun h => h ⟨rfl, hfolder, hstart, rfl, .inl hstop⟩
    | false => exact iff_of_true (truthful_of_unchanged nofun) fun h => nomatch h.2.2.2.1
  · cases haside : s.grants .setAside with
    | true =>
      rw [op_done hstop haside rfl, if_pos rfl, windowsMoveOver_truthful_iff htemp htaken]
      simp [hfolder, hstart, hstop]
    | false =>
      rw [op_refused hstop haside]
      exact iff_of_true (truthful_of_unchanged nofun) fun h => nomatch h.2.2.2.1

theorem Script.windowsNew_truthful_iff (hstart : s.stop ≠ some .start) (htarget : n.target = none) :
    Truthful false n (s.windowsPlace n false) ↔ ¬(s.grants .move ∧ s.stop = some .move) := by
  unfold windowsPlace
  rw [if_neg hstart, htemp, if_neg (by simp), if_neg Bool.false_ne_true,
    if_neg (by simp [htarget])]
  exact move_truthful_iff htemp htarget false (fun _ => rfl) (by simp [htarget])

theorem Script.windowsPlace_truthful_iff (replace : Bool) :
    Truthful replace n (s.windowsPlace n replace) ↔ ¬s.WindowsMisleads n.target replace := by
  by_cases hstart : s.stop = some .start
  · rw [windowsPlace, if_pos hstart]
    exact iff_of_true (truthful_of_unchanged nofun) (by simp [WindowsMisleads, hstart])
  · have hthere : ¬n.temp.isNone = true := by simp [htemp]
    cases htarget : n.target with
    | none =>
      rw [WindowsMisleads, if_pos rfl]
      cases replace with
      | true =>
        have hmove : s.windowsPlace n true = s.windowsMoveIn false n := by
          rw [windowsPlace, if_neg hstart, if_neg hthere, if_pos rfl, htarget]
          rfl
        rw [hmove]
        exact move_truthful_iff htemp htarget true (fun _ => rfl) rfl
      | false => exact windowsNew_truthful_iff htemp hstart htarget
    | some entry =>
      rw [← htarget]
      cases replace with
      | true =>
        cases hfolder : folderLike n.target with
        | false => exact windowsReplace_truthful_iff htemp hstart htarget hfolder
        | true =>
          rw [windowsPlace, if_neg hstart, if_neg hthere, if_pos rfl, if_pos hfolder]
          refine iff_of_true (truthful_of_unchanged nofun) ?_
          rw [WindowsMisleads, if_neg (by simp [htarget]), hfolder]
          exact fun h => nomatch h.2.1
      | false =>
        rw [windowsPlace, if_neg hstart, if_neg hthere, if_neg Bool.false_ne_true,
          if_pos (by simp [htarget])]
        exact iff_of_true (truthful_of_unchanged nofun) (by simp [WindowsMisleads, htarget])

end

end scripts

/-! ### SFTP -/

section servers

variable {s : Sftp} {n : Names β} {bytes : β}

theorem Sftp.renameOver_truthful_iff {before : Names β} (htemp : before.temp = some (.file bytes))
    (hn : n.temp = before.temp) (htarget : n.target = none) :
    Truthful true before (s.renameOver n) ↔
      s.rename = .granted ∨ before.target = none ∧ s.rename ≠ .lost true := by
  have hrequest : s.requestRename n = request s.rename true Names.moveIn n := by
    rw [requestRename, htarget]
    rfl
  unfold renameOver
  rw [hrequest]
  cases s.rename with
  | granted => exact iff_of_true ⟨hn, rfl, nofun⟩ (.inl rfl)
  | refused => simp [request, truthful_threw_iff, hn, htarget, eq_comm]
  | lost applied =>
    cases applied with
    | true => exact iff_of_false (not_truthful_of_gone htemp rfl) (by simp)
    | false => simp [request, truthful_threw_iff, hn, htarget, eq_comm]

/-- Without `posix-rename@openssh.com`: the name is freed, then taken. -/
theorem Sftp.freed_truthful_iff (htemp : n.temp = some (.file bytes))
    (hoffers : s.offersPosixRename = false) (hlstat : s.lstat = .granted)
    (hfolder : isFolder n.target = false) :
    Truthful true n (s.place n true) ↔
      ¬if n.target = none then s.rename = .lost true
        else s.unlink = .lost true ∨ s.unlink = .granted ∧ s.rename ≠ .granted := by
  have hunsupported : s.requestPosixRename n = (.unsupported, n) := by
    rw [requestPosixRename, hoffers, if_neg Bool.false_ne_true]
  unfold place
  rw [if_pos rfl, hlstat]
  simp only [hfolder, Bool.false_eq_true, if_false, hunsupported]
  by_cases htarget : n.target = none
  · rw [if_neg (by simp [htarget]), if_pos htarget, renameOver_truthful_iff htemp rfl htarget]
    cases s.rename <;> simp [htarget]
  · have hthere : n.target.isSome = true := Option.isSome_iff_ne_none.mpr htarget
    have hrequest : s.requestUnlink n.target Names.removeTarget n =
        request s.unlink true Names.removeTarget n := by
      rw [requestUnlink, if_neg fun h => htarget h.2, hthere, hfolder]
      rfl
    rw [if_pos hthere, if_neg htarget, hrequest]
    cases s.unlink with
    | granted =>
      have hfreed : Truthful true n (s.renameOver n.removeTarget) ↔
          s.rename = .granted ∨ n.target = none ∧ s.rename ≠ .lost true :=
        renameOver_truthful_iff htemp rfl rfl
      simp only [request, if_true]
      rw [hfreed]
      simp [htarget]
    | refused => exact iff_of_true (truthful_of_unchanged nofun) (by simp)
    | lost applied =>
      cases applied with
      | true => exact iff_of_false (not_truthful_of_freed htarget rfl) (by simp)
      | false => exact iff_of_true (truthful_of_unchanged nofun) (by simp)

/-- `posix-rename@openssh.com` is one step. -/
theorem Sftp.posixRename_truthful_iff (htemp : n.temp = some (.file bytes))
    (hoffers : s.offersPosixRename = true) (hlstat : s.lstat = .granted)
    (hfolder : isFolder n.target = false) :
    Truthful true n (s.place n true) ↔ s.posixRename ≠ .lost true := by
  have hrequest : s.requestPosixRename n = request s.posixRename true Names.moveIn n := by
    rw [requestPosixRename, hoffers, if_pos rfl, hfolder]
    rfl
  unfold place
  rw [if_pos rfl, hlstat]
  simp only [hfolder, Bool.false_eq_true, if_false, hrequest]
  cases s.posixRename with
  | granted => exact iff_of_true (truthful_moveIn nofun) nofun
  | refused => exact iff_of_true (truthful_of_unchanged nofun) nofun
  | lost applied =>
    cases applied with
    | true => exact iff_of_false (not_truthful_of_gone htemp rfl) (by simp)
    | false => exact iff_of_true (truthful_of_unchanged nofun) nofun

theorem Sftp.placementFailed_ne_placed (reply : Reply) (n : Names β) :
    s.placementFailed reply n ≠ .placed := by
  unfold placementFailed
  split
  · nofun
  · split
    · nofun
    · nofun
    · split
      · nofun
      · split
        · nofun
        · split <;> nofun
        · nofun

section

variable (htemp : n.temp = some (.file bytes))
include htemp

/-- Without replacing, over `hardlink@openssh.com`. -/
theorem Sftp.hardlink_truthful_iff (hoffers : s.offersHardlink = true) :
    Truthful false n (s.place n false) ↔
      ¬(n.target = none ∧
        (s.hardlink = .lost true ∨ s.hardlink = .granted ∧ s.unlink ≠ .granted)) := by
  have hrequest : s.requestHardlink n = request s.hardlink n.target.isNone Names.linkIn n := by
    rw [requestHardlink, hoffers, if_pos rfl]
  unfold place
  rw [if_neg Bool.false_ne_true, hrequest]
  by_cases htarget : n.target = none
  · have hfree : n.target.isNone = true := by rw [htarget]; rfl
    rw [hfree]
    cases hhardlink : s.hardlink with
    | granted =>
      have hunlink : s.requestUnlink n.linkIn.temp Names.removeTemp n.linkIn =
          request s.unlink true Names.removeTemp n.linkIn := by
        rw [requestUnlink, Names.linkIn, htemp, if_neg fun h => nomatch h.2]
        rfl
      have hlinked : n.linkIn.target ≠ none := by simp [Names.linkIn, htemp]
      simp only [request, if_true]
      rw [hunlink]
      cases s.unlink with
      | granted => exact iff_of_true ⟨rfl, rfl, fun _ => htarget⟩ (by simp)
      | refused => exact iff_of_false (not_truthful_of_taken htarget hlinked) (by simp [htarget])
      | lost applied =>
        refine iff_of_false (not_truthful_of_taken htarget ?_) (by simp [htarget])
        cases applied <;> exact hlinked
    | refused =>
      exact iff_of_true (truthful_of_unchanged (placementFailed_ne_placed _ _)) (by simp)
    | lost applied =>
      cases applied with
      | true =>
        refine iff_of_false (not_truthful_of_taken htarget ?_) (by simp [htarget])
        simp [Names.linkIn, htemp]
      | false =>
        exact iff_of_true (truthful_of_unchanged (placementFailed_ne_placed _ _)) (by simp)
  · have htaken : n.target.isNone = false := Option.isNone_eq_false_iff.mpr
      (Option.isSome_iff_ne_none.mpr htarget)
    rw [htaken]
    refine iff_of_true ?_ fun h => htarget h.1
    cases s.hardlink with
    | granted | refused => exact truthful_of_unchanged (placementFailed_ne_placed _ _)
    | lost applied =>
      cases applied <;> exact truthful_of_unchanged (placementFailed_ne_placed _ _)

theorem Sftp.rename_truthful_iff (hoffers : s.offersHardlink = false) :
    Truthful false n (s.place n false) ↔
      ¬if n.target = none then s.rename = .lost true
        else s.renameReplaces ∧ isFolder n.target = false ∧
          (s.rename = .granted ∨ s.rename = .lost true) := by
  have hunsupported : s.requestHardlink n = (.unsupported, n) := by
    rw [requestHardlink, hoffers, if_neg Bool.false_ne_true]
  unfold place requestRename
  rw [if_neg Bool.false_ne_true, hunsupported]
  dsimp only
  have hcan : (n.target.isNone || s.renameReplaces && !isFolder n.target) = true ↔
      n.target = none ∨ s.renameReplaces ∧ isFolder n.target = false := by
    simp
  cases hbool : n.target.isNone || s.renameReplaces && !isFolder n.target with
  | false =>
    obtain ⟨htaken, hstays⟩ := not_or.mp (mt hcan.mpr (by rw [hbool]; exact Bool.false_ne_true))
    rw [if_neg htaken]
    refine iff_of_true ?_ fun h => hstays ⟨h.1, h.2.1⟩
    cases s.rename with
    | granted | refused => exact truthful_of_unchanged (placementFailed_ne_placed _ _)
    | lost applied =>
      cases applied <;> exact truthful_of_unchanged (placementFailed_ne_placed _ _)
  | true =>
    have hallowed := hcan.mp hbool
    cases hrename : s.rename with
    | granted =>
      by_cases htarget : n.target = none
      · rw [if_pos htarget]
        exact iff_of_true (truthful_moveIn fun _ => htarget) nofun
      · rw [if_neg htarget]
        obtain ⟨hreplaces, hfolder⟩ := hallowed.resolve_left htarget
        exact iff_of_false (fun h => htarget (h.2.2 rfl)) fun h => h ⟨hreplaces, hfolder, .inl rfl⟩
    | refused => exact iff_of_true (truthful_of_unchanged (placementFailed_ne_placed _ _)) (by simp)
    | lost applied =>
      cases applied with
      | true =>
        refine iff_of_false (not_truthful_of_gone htemp rfl) fun h => h ?_
        by_cases htarget : n.target = none
        · rw [if_pos htarget]
        · rw [if_neg htarget]
          obtain ⟨hreplaces, hfolder⟩ := hallowed.resolve_left htarget
          exact ⟨hreplaces, hfolder, .inr rfl⟩
      | false =>
        exact iff_of_true (truthful_of_unchanged (placementFailed_ne_placed _ _)) (by simp)

theorem Sftp.place_truthful (replace : Bool) :
    Truthful replace n (s.place n replace) ↔ ¬s.Misleads n.target replace := by
  unfold Misleads
  cases replace with
  | false =>
    rw [if_neg Bool.false_ne_true]
    cases hoffers : s.offersHardlink with
    | true =>
      rw [if_pos rfl]
      exact hardlink_truthful_iff htemp hoffers
    | false =>
      rw [if_neg Bool.false_ne_true]
      exact rename_truthful_iff htemp hoffers
  | true =>
    rw [if_pos rfl]
    by_cases hgoes : s.lstat = .granted ∧ isFolder n.target = false
    · obtain ⟨hlstat, hfolder⟩ := hgoes
      cases hoffers : s.offersPosixRename with
      | true =>
        rw [if_pos rfl, posixRename_truthful_iff htemp hoffers hlstat hfolder]
        simp [hlstat, hfolder]
      | false =>
        rw [if_neg Bool.false_ne_true, freed_truthful_iff htemp hoffers hlstat hfolder]
        simp [hlstat, hfolder]
    · refine iff_of_true ?_ fun h => hgoes ⟨h.1, h.2.1⟩
      unfold place
      rw [if_pos rfl]
      cases hlstat : s.lstat with
      | granted =>
        rw [if_pos (by simpa [hlstat] using hgoes)]
        exact truthful_of_unchanged nofun
      | refused | lost => exact truthful_of_unchanged nofun

end

end servers

/-- A placement tells the truth exactly where its host does not mislead it: whatever has the target's
name, whichever requests are refused, or left without an answer. -/
theorem place_truthful_iff (b : Backend β) (n : Names β) (bytes : β) (replace : Bool) :
    Truthful replace (n.withTemp bytes) (b.place (n.withTemp bytes) replace) ↔
      ¬b.Misleads n.target replace := by
  cases b with
  | sftp s => exact Sftp.place_truthful rfl replace
  | onDisk d => exact d.place_truthful n bytes replace
  | posix s => exact Script.posixPlace_truthful_iff rfl replace
  | windows s => exact Script.windowsPlace_truthful_iff rfl replace

/-- A server that offers `hardlink@openssh.com`, grants the link, and refuses the temporary's
removal. -/
def refusesRemoval : Sftp where
  offersPosixRename := true
  offersHardlink := true
  renameReplaces := false
  parentThere := true
  lstat := .granted
  lstatParent := .granted
  posixRename := .granted
  hardlink := .granted
  rename := .granted
  unlink := .refused

/-- It throws, and the file has its name. -/
theorem threw_though_placed :
    refusesRemoval.place ⟨some (.file "bytes"), none, none, none⟩ false =
        (.threw .refused, ⟨some (.file "bytes"), some (.file "bytes"), none, none⟩) ∧
      ¬Truthful false (⟨some (.file "bytes"), none, none, none⟩ : Names String)
        (refusesRemoval.place ⟨some (.file "bytes"), none, none, none⟩ false) := by
  refine ⟨by decide, ?_⟩
  rintro ⟨htarget, -⟩
  exact absurd htarget (by decide)

end Lasterm.Transfer.Placement
