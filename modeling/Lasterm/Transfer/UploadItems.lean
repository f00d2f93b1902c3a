import Lasterm.Lib.TextCoding
import Lasterm.Transfer.Upload
import Mathlib.Data.List.Sort

/-!
# The items of an upload

`packages/hub/src/transfers/upload-tree.ts`, with the names of
`packages/shared/src/transfer-protocol.ts`: a window that starts an upload sends a list of its files
and folders, in any order, each under its path.

## Main definitions

* `buildUploadTree` — checks the whole list, lists what is wrong with it, and else builds the tree
  the rest of the upload works on.
* `UpperCase` — the language's upper case of a text; `sha256` is that of a list's JSON text.
-/

namespace Lasterm.Transfer.Build

open Uploads (Kind)

/-- A text, as its characters. -/
abbrev Text := List Char

/-- How long a text is, in UTF-16 units. -/
def length16 (s : Text) : ℕ := (utf16.text s).length

/-- Upper case, one character after the other.  Only a slash has a slash in its upper case. -/
structure UpperCase where
  upper : Char → List Char
  slash : ∀ c, (upper c).count '/' = if c = '/' then 1 else 0

/-- `toUpperCase`. -/
def UpperCase.text (u : UpperCase) (s : Text) : Text := s.flatMap u.upper

/-! ### Names -/

/-- How long a path of the list may be. -/
def maxRelPathLength : ℕ := 4096

/-- `WINDOWS_MAX_PATH_LENGTH`. -/
def windowsMaxPathLength : ℕ := 259

/-- How long a name may be, in bytes. -/
def maxNameBytes : ℕ := 255

/-- Why `relPath` cannot name an item at all, on any host. -/
def relPathProblem (relPath : Text) : Option String :=
  if relPath = [] then some "the path is empty"
  else if maxRelPathLength < length16 relPath then
    some s!"the path is over {maxRelPathLength} characters"
  else if Char.ofNat 0 ∈ relPath then some "the path holds a NUL character"
  else if relPath.head? = some '/' then some "the path is not relative"
  else if [] ∈ relPath.splitOn '/' then some "the path has an empty name in it"
  else if (relPath.splitOn '/').any fun name => name = ['.'] ∨ name = ['.', '.'] then
    some "the path has a . or .. in it"
  else if (relPath.splitOn '/').any fun name => maxNameBytes < (utf8.text name).length then
    some s!"a name in the path is over {maxNameBytes} bytes"
  else none

/-- What no Windows name holds. -/
def windowsForbidden (c : Char) : Bool :=
  c ∈ ['<', '>', ':', '"', '/', '\\', '|', '?', '*'] || c.toNat < 0x20 ||
    (0x7f ≤ c.toNat && c.toNat ≤ 0x9f)

/-- The devices of Windows. -/
def windowsDevices : List Text :=
  ["CON".toList, "PRN".toList, "AUX".toList, "NUL".toList, "CONIN$".toList, "CONOUT$".toList] ++
    ["COM".toList, "LPT".toList].flatMap fun device =>
      "0123456789¹²³".toList.map fun digit => device ++ [digit]

/-- What may follow a device's name: nothing, or a dot and the rest of a line. -/
def deviceTail (rest : Text) : Bool :=
  match rest with
  | [] => true
  | c :: rest =>
    c = '.' && rest.all fun c => c ∉ ['\n', '\r', Char.ofNat 0x2028, Char.ofNat 0x2029]

/-- Whether a name is a device's, whatever follows its first dot. -/
def windowsReserved (name : Text) : Bool :=
  windowsDevices.any fun device =>
    (name.take device.length).map Char.toUpper = device && deviceTail (name.drop device.length)

/-- Why a Windows host would refuse `name` as a file or folder name. -/
def windowsNameProblem (name : Text) : Option String :=
  if name.any windowsForbidden then
    some "a Windows name holds none of < > : \" / \\ | ? * nor a control character"
  else if name.getLast? = some '.' ∨ name.getLast? = some ' ' then
    some "a Windows name does not end with a dot or a space"
  else if windowsReserved name then
    some "the name is a device's on Windows (CON, PRN, AUX, NUL, COM1–9, LPT1–9), whatever its extension"
  else none

/-! ### Paths -/

/-- How a host spells its paths. -/
inductive PathStyle
  | posix
  | windows
  deriving DecidableEq

/-- The path of `name` in the folder `dir`. The root of a Windows host holds its drives. -/
def joinHostPath (u : UpperCase) (dir name : Text) : PathStyle → Text
  | .posix => if dir = ['/'] then '/' :: name else dir ++ '/' :: name
  | .windows =>
    if dir = ['/'] then
      u.text (name.reverse.dropWhile fun c => c = ':' || c = '\\').reverse ++ [':', '\\']
    else dir ++ (if dir.getLast? = some '\\' then [] else ['\\']) ++ name

/-- A path as its host tells it from others: on Windows whatever its case. -/
def pathKey (u : UpperCase) (style : PathStyle) (relPath : Text) : Text :=
  match style with
  | .posix => relPath
  | .windows => u.text relPath

/-! ### Numbers -/

/-- The greatest whole number from which every smaller one is a number of its own. -/
def maxSafeInteger : ℕ := 9007199254740991

/-- A whole number as a number keeps it: 53 bits of it, the nearest, and of two the even one. -/
def roundNumber (n : ℕ) : ℕ :=
  if n ≤ maxSafeInteger then n
  else
    let unit := 2 ^ (n.log2 - 52)
    let q := n / unit
    if unit < 2 * (n % unit) ∨ unit = 2 * (n % unit) ∧ q % 2 = 1 then (q + 1) * unit else q * unit

/-! ### The items -/

/-- What stands in a field of an item: nothing, a text, a whole number, or anything else. -/
inductive Field
  | absent
  | text (s : Text)
  | whole (n : ℕ)
  | other
  deriving DecidableEq

/-- A whole number at least 0 that a number holds exactly. -/
def isWholeNumber : Field → Option ℕ
  | .whole n => if n ≤ maxSafeInteger then some n else none
  | _ => none

/-- An item as it comes; one that is no object has none of the fields. -/
structure RawItem where
  relPath : Field
  kind : Field
  size : Field
  mtime : Field

/-- One path refused, and why. -/
structure NameProblem where
  relPath : Text
  reason : String

/-- An item as it is read. -/
structure Parsed where
  relPath : Text
  kind : Kind
  size : ℕ
  mtime : Option ℕ

/-- Why an item cannot be read. -/
def RawItem.problem (item : RawItem) : Option String :=
  match item.relPath with
  | .text relPath =>
    if item.kind ≠ .text "file".toList ∧ item.kind ≠ .text "dir".toList then
      some "kind must be \"file\" or \"dir\""
    else if item.kind = .text "file".toList ∧ isWholeNumber item.size = none then
      some "a file's size must be a whole number of bytes"
    else if item.mtime ≠ .absent ∧ isWholeNumber item.mtime = none then
      some "mtime must be milliseconds since the epoch"
    else relPathProblem relPath
  | _ => some "rel_path must be text"

/-- An item as it is read, also where it cannot be. -/
def RawItem.parse (item : RawItem) : Parsed where
  relPath := match item.relPath with
    | .text relPath => relPath
    | _ => []
  kind := if item.kind = .text "dir".toList then .dir else .file
  size := if item.kind = .text "dir".toList then 0 else (isWholeNumber item.size).getD 0
  mtime := isWholeNumber item.mtime

/-- What the first loop has found. -/
structure Reading where
  structural : List NameProblem
  parsed : List Parsed
  files : ℕ
  bytes : ℕ

/-- One item of the first loop. -/
def Reading.item (r : Reading) (item : RawItem) (index : ℕ) : Reading where
  structural :=
    match item.problem with
    | none => r.structural
    | some reason =>
      r.structural ++
        [⟨if item.parse.relPath = [] then '#' :: (toString index).toList else item.parse.relPath,
          reason⟩]
  parsed := r.parsed ++ [item.parse]
  files := if item.parse.kind = .file then r.files + 1 else r.files
  bytes := if item.parse.kind = .file then roundNumber (r.bytes + item.parse.size) else r.bytes

/-- The first loop. -/
def readItems (raw : List RawItem) : Reading :=
  raw.zipIdx.foldl (fun r e => r.item e.1 e.2) ⟨[], [], 0, 0⟩

/-- What the second loop has found: under each key the item that had it first. -/
structure Seen where
  byKey : OrderedMap Text ℕ
  structural : List NameProblem
  naming : List NameProblem

variable (u : UpperCase) (style : PathStyle)

/-- One item of the second loop. -/
def Seen.item (parsed : List Parsed) (s : Seen) (item : Parsed) (index : ℕ) : Seen :=
  match s.byKey.get (pathKey u style item.relPath) with
  | none => { s with byKey := s.byKey.set (pathKey u style item.relPath) index }
  | some seen =>
    if parsed[seen]?.map Parsed.relPath = some item.relPath then
      { s with
        structural := s.structural ++ [⟨item.relPath, "the path is in the upload twice"⟩] }
    else
      { s with
        naming := s.naming ++
          [⟨item.relPath,
            "another item has this name but for its case, which a Windows host does not tell apart"⟩] }

/-- The second loop: each path once, and on Windows each path once whatever its case. -/
def seeItems (parsed : List Parsed) (structural : List NameProblem) : Seen :=
  parsed.zipIdx.foldl (fun s e => s.item u style parsed e.1 e.2) ⟨OrderedMap.empty, structural, []⟩

/-- One file or folder of an upload: its place in the tree. -/
structure TreeItem where
  id : ℕ
  relPath : Text
  name : Text
  kind : Kind
  size : ℕ
  mtime : Option ℕ
  parent : Option ℕ
  children : List ℕ

/-- Where the folder an item is in stands. -/
def parentIndex (byKey : OrderedMap Text ℕ) (item : Parsed) : Option ℕ :=
  (cutLast '/' item.relPath).bind fun cut => byKey.get (pathKey u style cut.1)

/-- What is wrong with where an item is. -/
def parentProblem (byKey : OrderedMap Text ℕ) (parsed : List Parsed) (refused : List Text)
    (item : Parsed) : Option NameProblem :=
  if (cutLast '/' item.relPath).isSome ∧ item.relPath ∉ refused then
    match parentIndex u style byKey item with
    | none => some ⟨item.relPath, "the folder it is in is not in the upload"⟩
    | some index =>
      if parsed[index]?.map Parsed.kind = some .dir then none
      else some ⟨item.relPath, "what it is in is a file"⟩
  else none

/-- An item in its place. -/
def placeItem (byKey : OrderedMap Text ℕ) (item : Parsed) (id : ℕ) : TreeItem where
  id := id
  relPath := item.relPath
  name := ((cutLast '/' item.relPath).map Prod.snd).getD item.relPath
  kind := item.kind
  size := item.size
  mtime := item.mtime
  parent := parentIndex u style byKey item
  children := []

/-- What a Windows host would refuse of an item's path in `dir`. -/
def windowsProblem (dir : Text) (item : TreeItem) : Option NameProblem :=
  match (item.relPath.splitOn '/').findSome? windowsNameProblem with
  | some reason => some ⟨item.relPath, reason⟩
  | none =>
    let full := joinHostPath u dir (item.relPath.map fun c => if c = '/' then '\\' else c) .windows
    if windowsMaxPathLength < length16 full then
      some ⟨item.relPath,
        s!"its path on the host would be {length16 full} characters, over the {windowsMaxPathLength} Windows allows"⟩
    else none

/-- Each item given to the folder it is in. -/
def pushChildren (items : List TreeItem) : List TreeItem :=
  items.foldl
    (fun its item =>
      match item.parent with
      | none => its
      | some p => its.modify p fun folder => { folder with children := folder.children ++ [item.id] })
    items

/-- How deep an item is. -/
def TreeItem.depth (item : TreeItem) : ℕ := (item.relPath.splitOn '/').length

/-- Shallower, or as deep and not later. -/
def TreeItem.before (a b : TreeItem) : Prop := a.depth < b.depth ∨ a.depth = b.depth ∧ a.id ≤ b.id

instance : DecidableRel TreeItem.before := fun a b =>
  inferInstanceAs (Decidable (a.depth < b.depth ∨ a.depth = b.depth ∧ a.id ≤ b.id))

/-- A path's units, which paths are sorted by. -/
def units (s : Text) : List ℕ := (utf16.text s).map UInt16.toNat

/-- The path of `a` does not come behind that of `b`. -/
def Parsed.upTo (a b : Parsed) : Prop := units a.relPath ≤ units b.relPath

instance : DecidableRel Parsed.upTo := fun a b =>
  inferInstanceAs (Decidable (units a.relPath ≤ units b.relPath))

/-- Why a list of items is refused. -/
inductive Code
  | invalidItems
  | invalidNames
  | tooManyFiles

/-- What comes of a list of items; `δ` is what a signature is. -/
inductive Outcome (δ : Type*)
  | built (items : List TreeItem) (order : List ℕ) (files bytes : ℕ) (signature : δ)
  | refused (code : Code) (message : String) (names : Option (List NameProblem))

/-- `TRANSFER_MAX_FILES`. -/
def maxFiles : ℕ := 100000

/-- `TRANSFER_MAX_ITEMS`. -/
def maxItems : ℕ := 200000

/-- The most problems one answer lists. -/
def problemsListed : ℕ := 1000

/-- The answer that lists what is wrong. -/
def refuse {δ : Type*} (code : Code) (problems : List NameProblem) : Outcome δ :=
  let listed := problems.take problemsListed
  let s := if problems.length = 1 then "" else "s"
  let more :=
    if listed.length < problems.length then s!" (the first {listed.length} are listed)" else ""
  .refused code
    (match code with
      | .invalidNames =>
        s!"{problems.length} name{s} cannot be created on this host{more}: leave them out, or cancel"
      | _ => s!"{problems.length} item{s} cannot be sent as given{more}")
    (some listed)

/-- Check a whole tree before any byte moves, and build it. -/
def buildUploadTree {δ : Type*} (sha256 : List Parsed → δ) (dir : Text)
    (raw : Option (List RawItem)) : Outcome δ :=
  match raw with
  | none => .refused .invalidItems "items must be a non-empty list" none
  | some raw =>
    if raw = [] then .refused .invalidItems "items must be a non-empty list" none
    else if maxItems < raw.length then
      .refused .tooManyFiles
        s!"An upload holds at most {maxItems} files and folders: send an archive instead" none
    else
      let reading := readItems raw
      if maxFiles < reading.files then
        .refused .tooManyFiles
          s!"An upload holds at most {maxFiles} files: send an archive instead" none
      else
        let seen := seeItems u style reading.parsed reading.structural
        let refused := seen.structural.map NameProblem.relPath
        let structural := seen.structural ++
          reading.parsed.filterMap (parentProblem u style seen.byKey reading.parsed refused)
        let items := reading.parsed.zipIdx.map fun e => placeItem u style seen.byKey e.1 e.2
        let naming := seen.naming ++
          (if style = .windows then items.filterMap (windowsProblem u dir) else [])
        if structural ≠ [] then refuse .invalidItems structural
        else if naming ≠ [] then refuse .invalidNames naming
        else
          .built (pushChildren items) ((items.insertionSort TreeItem.before).map TreeItem.id)
            reading.files reading.bytes (sha256 (reading.parsed.insertionSort Parsed.upTo))

end Lasterm.Transfer.Build
