import Lasterm.Transfer.Sources
import Mathlib.Logic.Function.Basic

/-!
# Replacing a file

A file of an upload that is to replace what is under its name: its bytes go to a
temporary, and the temporary is put in place by the backend
(`files/local-upload.ts`, `files/sftp-upload.ts`, `files/exec-upload.ts`); what the
service does when that fails is in `transfers/transfer-service.ts` (`place`, `fileFailed`,
`restartFile`, `afterStop`, `skip`, `drop`, `lookAtTemp`).

Each request to the host is a step of its own: it is carried out or refused, or its answer
is lost with the request carried out or not.  How the bytes reach the temporary is not
followed: `sendEnds` and `finished` say how that ends.  Left out is that a placement is
interrupted from elsewhere while it is under way, and that a look at the temporary ends after
a placement began.

## Main definitions

* `Files` — what the paths hold; `Upload`, `step` — the file's state, and what can happen.
* `Safe` — the old file or the whole new one is there.
-/

namespace Lasterm.Transfer.Replace

/-! ### The host -/

/-- What a path holds: the file that was there before, the whole new one, or a part. -/
inductive Content
  | old
  | whole
  | part

/-- The paths that matter to one file of an upload. -/
structure Files where
  target : Option Content
  /-- What a Windows script set aside and has neither put back nor deleted, each under a
  name of its own, the latest first. -/
  aside : List Content
  temps : ℕ → Option Content

namespace Files

/-- The temporary takes the target's name, and what had it is no more. -/
def moveIn (f : Files) (temp : ℕ) : Files :=
  { f with
    target := if (f.temps temp).isSome then f.temps temp else f.target
    temps := Function.update f.temps temp none }

/-- The name is free. -/
def removeTarget (f : Files) : Files := { f with target := none }

/-- That temporary is gone. -/
def removeTemp (f : Files) (temp : ℕ) : Files :=
  { f with temps := Function.update f.temps temp none }

/-- A temporary holds this now. -/
def setTemp (f : Files) (temp : ℕ) (c : Content) : Files :=
  { f with temps := Function.update f.temps temp (some c) }

/-- The target is moved aside. -/
def moveAside (f : Files) : Files :=
  { f with target := none, aside := f.target.toList ++ f.aside }

/-- What was set aside last goes back. -/
def moveBack (f : Files) : Files :=
  { f with target := f.aside.head?, aside := f.aside.tail }

/-- What was set aside last is deleted. -/
def deleteAside (f : Files) : Files := { f with aside := f.aside.tail }

end Files

/-- How a script goes: which of its moves the host lets happen, and after how many file
operations it is cut short, if it is. -/
structure ScriptRun where
  movesAside : Bool
  movesIn : Bool
  movesBack : Bool
  deletes : Bool
  cut : Option ℕ
  deriving DecidableEq

/-- `posixPlaceScript`, to replace: `mv -f`.  Whether it answered `OK`, too. -/
def posixPlace (f : Files) (temp : ℕ) (r : ScriptRun) : Files × Bool :=
  if (f.temps temp).isNone || !r.movesIn || r.cut == some 0 then (f, false)
  else (f.moveIn temp, r.cut.isNone)

/-- `windowsPlaceScript`, to replace: what is there is moved aside, the temporary takes the
name, and what was set aside is deleted, or goes back if the name was not taken. -/
def windowsPlace (f : Files) (temp : ℕ) (r : ScriptRun) : Files × Bool :=
  if (f.temps temp).isNone || r.cut == some 0 then
    (f, false)
  else if f.target.isSome then
    if !r.movesAside then (f, false)
    else if r.cut == some 1 then (f.moveAside, false)
    else if !r.movesIn then
      if r.movesBack && r.cut != some 2 then (f.moveAside.moveBack, false)
      else (f.moveAside, false)
    else if r.cut == some 2 then (f.moveAside.moveIn temp, false)
    else if r.deletes then ((f.moveAside.moveIn temp).deleteAside, r.cut.isNone)
    else (f.moveAside.moveIn temp, r.cut.isNone)
  else if !r.movesIn then (f, false)
  else (f.moveIn temp, r.cut.isNone)

/-! ### The file -/

/-- How the host is reached. -/
inductive Backend
  | onDisk
  /-- `posixRename` if the server offers `posix-rename@openssh.com`. -/
  | sftp (posixRename : Bool)
  | posix
  | windows
  deriving DecidableEq

/-- The request of a placement that is on its way. -/
inductive Request
  | stat (temp : ℕ)
  /-- A rename that replaces: of the local host, or `posix-rename@openssh.com`. -/
  | replacingRename (temp : ℕ) (there : Bool)
  | unlink (temp : ℕ)
  | rename (temp : ℕ)
  | script (temp : ℕ)

/-- The temporary being placed. -/
def Request.temp : Request → ℕ
  | .stat k | .replacingRename k _ | .unlink k | .rename k | .script k => k

/-- One file of an upload, with resolution `replace`. -/
structure Upload where
  state : ItemState
  temp : Option ℕ
  tempWhole : Bool
  /-- The placement's request, while one is under way. -/
  placing : Option Request
  /-- The temporaries a request to remove is on its way for. -/
  removing : List ℕ
  nextTemp : ℕ
  dropped : Bool
  files : Files

/-- What a request is answered with. -/
inductive Answer
  | ok
  /-- The file is open elsewhere: the local host's rename is tried again. -/
  | busy
  | unsupported
  | refused
  /-- The channel closed, the request carried out or not. -/
  | lost (applied : Bool)
  /-- How a script went, and whether what it failed with is an interruption. -/
  | ran (how : ScriptRun) (interruption : Bool)
  deriving DecidableEq

/-- What can happen. -/
inductive Step
  /-- `open`: from the first byte under a new temporary, or on the one there is. -/
  | opened (fresh : Bool)
  | sendEnds (interruption : Bool)
  /-- `finishFile`: every byte is on the host. -/
  | finished
  /-- The pump takes a queued file whose temporary is whole. -/
  | pumped
  | retry
  /-- `lookAtTemp`: whether the temporary was found as it should be. -/
  | look (asItWas : Bool)
  /-- `changedFile`: left out, or sent again from its first byte. -/
  | changed (skip : Bool)
  | cancel
  | drop
  | answer (a : Answer)
  | removed (temp : ℕ) (done : Bool)

namespace Upload

/-- A file to be sent, over the one that is there. -/
def init : Upload where
  state := .queued
  temp := none
  tempWhole := false
  placing := none
  removing := []
  nextTemp := 0
  dropped := false
  files := { target := some .old, aside := [], temps := fun _ => none }

/-- The old file or the whole new one is under the name, the new one in the temporary the
file records, or the old one where it was set aside. -/
def Safe (s : Upload) : Prop :=
  (∃ c, s.files.target = some c ∧ c ≠ .part) ∨ (∃ c ∈ s.files.aside, c ≠ .part) ∨
    ∃ k, s.temp = some k ∧ s.files.temps k = some .whole

/-- No request of the file is on its way. -/
def Quiet (s : Upload) : Prop := s.placing = none ∧ s.removing = []

/-- `restartFile`, the temporary's removal on its way: whoever does this forgets it. -/
def forget (s : Upload) (state : ItemState) : Upload :=
  { s with
    state
    temp := none
    tempWhole := false
    removing := s.temp.elim s.removing fun k => k :: s.removing }

/-- `fileFailed`. -/
def fileFailed (s : Upload) (interruption : Bool) : Upload :=
  let s := { s with placing := none }
  if interruption then { s with state := .interrupted } else s.forget .failed

/-- The file has its name. -/
def filePlaced (s : Upload) : Upload :=
  { s with state := .placed, temp := none, tempWhole := false, placing := none }

/-- `place`, up to its first request. -/
def place (b : Backend) (s : Upload) : Upload :=
  match s.temp with
  | none => s
  | some k =>
    { s with
      state := .verifying
      placing := some (match b with
        | .onDisk | .sftp _ => .stat k
        | .posix | .windows => .script k) }

/-- Without a rename that replaces: the name is freed, if it is taken, then taken. -/
def freeName (s : Upload) (temp : ℕ) (there : Bool) : Upload :=
  { s with placing := some (if there then .unlink temp else .rename temp) }

/-- A request of the placement is answered. -/
def answer (b : Backend) (s : Upload) : Request → Answer → Option Upload
  | .stat k, .ok =>
    match b with
    | .sftp false => some (s.freeName k s.files.target.isSome)
    | _ => some { s with placing := some (.replacingRename k s.files.target.isSome) }
  | .stat _, .refused => some (s.fileFailed false)
  | .stat _, .lost _ => some (s.fileFailed true)
  | .replacingRename k _, .ok =>
    if (s.files.temps k).isSome then
      some ({ s with files := s.files.moveIn k }.filePlaced)
    else none
  | .replacingRename _ _, .busy => if b = .onDisk then some s else none
  | .replacingRename k there, .unsupported =>
    if b = .onDisk then none else some (s.freeName k there)
  | .replacingRename _ _, .refused => some (s.fileFailed false)
  | .replacingRename k _, .lost applied =>
    if b = .onDisk then none
    else
      some ({ s with files := if applied then s.files.moveIn k else s.files }.fileFailed true)
  | .unlink k, .ok =>
    some { s with files := s.files.removeTarget, placing := some (.rename k) }
  | .unlink _, .refused => some (s.fileFailed false)
  -- `removeOn` throws what the channel's end gave it, which no one reads as an interruption.
  | .unlink _, .lost applied =>
    some ({ s with
      files := if applied then s.files.removeTarget else s.files }.fileFailed false)
  | .rename k, .ok =>
    if (s.files.temps k).isSome then
      some ({ s with files := s.files.moveIn k }.filePlaced)
    else none
  | .rename _, .refused => some (s.fileFailed false)
  | .rename k, .lost applied =>
    some ({ s with files := if applied then s.files.moveIn k else s.files }.fileFailed true)
  | .script k, .ran r interruption =>
    let (files, ok) :=
      if b = .windows then windowsPlace s.files k r else posixPlace s.files k r
    let s := { s with files }
    some (if ok then s.filePlaced else s.fileFailed interruption)
  | .script _, .refused => some (s.fileFailed false)
  | .script _, .lost false => some (s.fileFailed true)
  | _, _ => none

/-- A step; `none` if it is not possible.  A discarded upload only has its requests
answered. -/
def step (b : Backend) (s : Upload) : Step → Option Upload
  | .opened fresh =>
    if s.dropped = false ∧ s.state = .queued ∧ s.tempWhole = false then
      if fresh ∨ s.temp = none then
        let s := s.forget .sending
        some { s with
          temp := some s.nextTemp
          nextTemp := s.nextTemp + 1
          files := s.files.setTemp s.nextTemp .part }
      else some { s with state := .sending }
    else none
  | .sendEnds interruption =>
    if s.dropped = false ∧ s.state = .sending then some (s.fileFailed interruption) else none
  | .finished =>
    if s.dropped = false ∧ s.state = .sending then
      s.temp.map fun k =>
        { s with tempWhole := true, files := s.files.setTemp k .whole }.place b
    else none
  | .pumped =>
    if s.dropped = false ∧ s.state = .queued ∧ s.tempWhole then some (s.place b) else none
  | .retry =>
    if s.dropped = false ∧
        (s.state = .failed ∨ s.state = .cancelled ∨ s.state = .interrupted) then
      some (if s.tempWhole then s.place b else { s with state := .queued })
    else none
  | .look asItWas =>
    if s.dropped = false ∧ (s.state = .interrupted ∨ s.state = .queued ∨
        s.state = .failed ∨ s.state = .cancelled) then
      some (if asItWas then s else s.forget s.state)
    else none
  | .changed skip =>
    if s.dropped = false ∧ (s.state = .interrupted ∨ s.state = .queued ∨
        s.state = .failed ∨ s.state = .cancelled) then
      some (s.forget (if skip then .skipped else s.state))
    else none
  | .cancel =>
    if s.dropped = false ∧ (s.state = .queued ∨ s.state = .sending ∨
        s.state = .interrupted) then
      some (s.forget .cancelled)
    else none
  | .drop =>
    if s.dropped = false then
      some { s.forget (if s.state.unsettled then .cancelled else s.state) with
        dropped := true }
    else none
  | .answer a => s.placing.bind fun r => s.answer b r a
  | .removed k done =>
    if k ∈ s.removing then
      some { s with
        removing := s.removing.erase k
        files := if done then s.files.removeTemp k else s.files }
    else none

end Upload

/-! ### The condition -/

/-- The name is free, and nothing was set aside: what is left is the temporary. -/
def Files.Freed (f : Files) : Prop := f.target = none ∧ f.aside = []

instance (f : Files) : Decidable f.Freed := inferInstanceAs (Decidable (_ ∧ _))

/-- The new file is about to take the name, by a rename that replaces nothing. -/
def Upload.renaming (s : Upload) : Bool :=
  match s.placing with
  | some (.rename _) => true
  | _ => false

/-- An answer after which the file is somewhere it is known to be.  The connection is not
lost on the old file's removal after it was carried out; and while the name is free, the
host refuses nothing, and a rename whose answer is lost was carried out, or leaves the
temporary known and there. -/
def Upload.answerHolds (s : Upload) : Request → Answer → Bool
  | .unlink _, a => a != .lost true && (!decide s.files.Freed || a == .ok)
  | .rename k, .lost applied =>
    !decide s.files.Freed ||
      (s.files.temps k).isSome && (applied || s.temp == some k)
  | _, a => !decide s.files.Freed || a != .refused

/-- What a placement on a server without a rename that replaces needs: its requests are
answered as `answerHolds` says, and while the name is free the file is not cancelled, left
out, started again or discarded. -/
def Orderly (s : Upload) : Step → Prop
  | .answer a => ∀ r ∈ s.placing, s.answerHolds r a = true
  | .look asItWas => asItWas = false → ¬s.files.Freed
  | .changed _ | .cancel => ¬s.files.Freed
  | .drop => s.files.Freed → s.renaming = true
  | _ => True

instance (s : Upload) : (a : Step) → Decidable (Orderly s a)
  | .answer a => inferInstanceAs (Decidable (∀ r ∈ s.placing, s.answerHolds r a = true))
  | .look asItWas => inferInstanceAs (Decidable (asItWas = false → ¬s.files.Freed))
  | .changed _ | .cancel => inferInstanceAs (Decidable (¬s.files.Freed))
  | .drop => inferInstanceAs (Decidable (s.files.Freed → s.renaming = true))
  | .opened _ | .sendEnds _ | .finished | .pumped | .retry | .removed _ _ => .isTrue trivial

end Lasterm.Transfer.Replace
