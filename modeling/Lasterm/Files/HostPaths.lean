import Lasterm.Lib.Segments
import Lasterm.Transfer.UploadItems

/-!
# The paths of a host

`files/host-paths.ts`: the paths a client may name on a host it browses, and the one form each
takes.  A path is taken apart by hand, with cases for the root, drives, shares and mixed
separators.

A path in its one form is a `Place`: a root, and names below it that a folder can hold.  On a
Windows host a name that holds `%NAME%` is one a folder can hold, but `normaliseHostPath`
refuses every path with such a name.

## Main results

* `normaliseHostPath_place` — the one form of a path is a place.
* `normaliseHostPath_spell` — a place without `%NAME%` is its own one form.
-/

namespace Lasterm.Files

open Segments List
open Transfer.Build (Text UpperCase PathStyle joinHostPath)

/-! ### The source -/

/-- `WINDOWS_ROOT`: what holds the drives of a Windows host. -/
def windowsRoot : Text := ['/']

/-- A path in its one form, or why there is none. -/
abbrev NormalisedPath := Except String Text

/-- What may follow in the name of a variable. -/
def variableChar (c : Char) : Bool := c.isAlphanum || c ∈ ['_', '(', ')', '.', '-']

/-- A variable's name and the sign that ends it stand at the front. -/
def variableTail : Text → Bool
  | [] => false
  | c :: rest => (c.isAlpha || c = '_') && (rest.dropWhile variableChar).head? = some '%'

/-- `WINDOWS_VARIABLE`: `%NAME%` stands somewhere. -/
def namesVariable : Text → Bool
  | [] => false
  | c :: rest => c = '%' && variableTail rest || namesVariable rest

/-- `WINDOWS_FORBIDDEN`, and `:`. -/
def windowsForbids (c : Char) : Bool :=
  c ∈ ['"', '<', '>', '|', '?', '*', ':'] || c.toNat < 0x20 ||
    (0x7f ≤ c.toNat && c.toNat ≤ 0x9f)

/-- Why `%NAME%` is refused. -/
def variableReason : String :=
  "the path names an environment variable (%NAME%), which is not expanded: " ++
    "give the folder it stands for"

/-- Why a `.` or `..` is refused. -/
def dotsReason : String := "the path has a . or .. segment: name the folder itself"

/-- Why a name no Windows folder can hold is refused. -/
def forbiddenReason : String :=
  "the path holds a character no Windows name may: \" < > | ? * : or a control character"

/-- `.` or `..`. -/
def isDots (segment : Text) : Bool := segment = ['.'] || segment = ['.', '.']

/-- Why a path with `.` or `..` among its segments is refused. -/
def withoutDotSegments (segments : List Text) : Option String :=
  if segments.any isDots then some dotsReason else none

/-- `normalisePosixPath`: an absolute path, its slashes made single. -/
def normalisePosixPath (path : Text) : NormalisedPath :=
  if path.head? ≠ some '/' then
    if path.head? = some '~' then
      .error "a path starting with ~ is not expanded: give the home folder's absolute path"
    else if path.head? = some '$' then
      .error "environment variables are not expanded: give the absolute path"
    else .error "the path is not absolute"
  else
    let segments := names '/' path
    match withoutDotSegments segments with
    | some reason => .error reason
    | none => .ok ('/' :: ['/'].intercalate segments)

/-- A drive's letter, and what is after its colon. -/
def driveOf : Text → Option (Char × Text)
  | letter :: colon :: after => if letter.isAlpha ∧ colon = ':' then some (letter, after) else none
  | _ => none

/-- `\C:` or `\C:\`, as a Windows SFTP server spells a drive. -/
def slashedDrive : Text → Bool
  | c :: rest => c = '\\' && (driveOf rest).any fun d => d.2 = [] || d.2.head? = some '\\'
  | [] => false

/-- Three separators or more, and something after them. -/
def slashedShare (path : Text) : Bool :=
  3 ≤ (path.takeWhile (· = '\\')).length && path.dropWhile (· = '\\') ≠ []

/-- The root of a path and the rest of it. -/
def windowsRootOf (path : Text) : Except String (Text × Text) :=
  match driveOf path with
  | some (letter, after) =>
    if after ≠ [] ∧ after.head? ≠ some '\\' then
      .error "a drive-relative path (C:name) names no folder: give C:\\name"
    else .ok ([letter.toUpper, ':', '\\'], after)
  | none =>
    if path.take 2 = ['\\', '\\'] then
      let parts := (path.drop 2).splitOn '\\'
      let server := (parts[0]?).getD []
      let share := (parts[1]?).getD []
      if server = ['?'] ∨ server = ['.'] then
        .error "device paths (\\\\?\\, \\\\.\\) are not browsed"
      else if server = [] ∨ share = [] then
        .error "a UNC path names a server and a share: \\\\server\\share"
      else .ok (['\\', '\\'] ++ server ++ '\\' :: share, ['\\'].intercalate (parts.drop 2))
    else if path.head? = some '\\' then
      .error "the path names no drive: give C:\\… or \\\\server\\share\\…"
    else .error "the path is not absolute: give C:\\… or \\\\server\\share\\…"

/-- The path of the names in `rest` below a root, or why it is refused. -/
def windowsPathOf (root rest : Text) : NormalisedPath :=
  let segments := names '\\' rest
  match withoutDotSegments ((root.drop 2).splitOn '\\' ++ segments) with
  | some reason => .error reason
  | none =>
    let named :=
      (if root.take 2 = ['\\', '\\'] then (root.drop 2).splitOn '\\' else []) ++ segments
    if named.any (·.any windowsForbids) then
      .error forbiddenReason
    else if segments = [] then .ok root
    else
      .ok (root ++ (if root.getLast? = some '\\' then [] else ['\\']) ++
        ['\\'].intercalate segments)

/-- `input.replace(/\//g, "\\")`. -/
def backslashed (input : Text) : Text := input.map fun c => if c = '/' then '\\' else c

/-- `normaliseWindowsPath`: a drive's or a share's path, with backslashes. -/
def normaliseWindowsPath (input : Text) : NormalisedPath :=
  if namesVariable input then
    .error variableReason
  else
    let path := backslashed input
    if path ≠ [] ∧ path.all (· = '\\') then .ok windowsRoot
    else
      let path := if slashedDrive path then path.drop 1 else path
      let path := if slashedShare path then '\\' :: '\\' :: path.dropWhile (· = '\\') else path
      match windowsRootOf path with
      | .error reason => .error reason
      | .ok (root, rest) => windowsPathOf root rest

/-- `path` in its one form for a host of `style`, or why it is refused. -/
def normaliseHostPath (path : Text) (style : PathStyle) : NormalisedPath :=
  if path = [] then .error "the path is empty"
  else if Char.ofNat 0 ∈ path then .error "the path holds a NUL character"
  else
    match style with
    | .windows => normaliseWindowsPath path
    | .posix => normalisePosixPath path

/-- `/^[A-Z]:$/` -/
def isDrive : Text → Bool
  | [letter, colon] => letter.isUpper && colon = ':'
  | _ => false

/-- `/^[A-Z]:\\$/` -/
def isDriveRoot : Text → Bool
  | [letter, colon, slash] => letter.isUpper && colon = ':' && slash = '\\'
  | _ => false

/-- `/^\\\\[^\\]+\\[^\\]+$/` -/
def isShareRoot (path : Text) : Bool :=
  path.take 2 = ['\\', '\\'] &&
    match (path.drop 2).splitOn '\\' with
    | [server, share] => server ≠ [] && share ≠ []
    | _ => false

/-- The last name in `path`: a drive's root is its drive, and a root is itself. -/
def baseNameOf (path : Text) : PathStyle → Text
  | .posix => if path = ['/'] then ['/'] else sliceFrom path (lastIndexOf '/' path + 1)
  | .windows =>
    if path = windowsRoot then windowsRoot
    else if isDriveRoot path then path.take 2
    else sliceFrom path (lastIndexOf '\\' path + 1)

/-- The folder `path` is in, and none for a root. -/
def parentOf (path : Text) : PathStyle → Option Text
  | .posix =>
    if path = ['/'] then none
    else
      let cut := lastIndexOf '/' path
      some (if cut = 0 then ['/'] else sliceTo path cut)
  | .windows =>
    if path = windowsRoot then none
    else if isDriveRoot path then some windowsRoot
    else if isShareRoot path then none
    else
      let parent := sliceTo path (lastIndexOf '\\' path)
      some (if isDrive parent then parent ++ ['\\'] else parent)

/-! ### Places -/

/-- What names an entry of a folder: a name of its own, with no separator in it, of the
characters the host's names have. -/
structure EntryName (style : PathStyle) (n : Text) : Prop where
  ne_nil : n ≠ []
  not_dots : isDots n = false
  not_nul : Char.ofNat 0 ∉ n
  not_slash : '/' ∉ n
  windows : style = .windows → '\\' ∉ n ∧ n.any windowsForbids = false

/-- A name of an entry. -/
abbrev Name (style : PathStyle) := {n : Text // EntryName style n}

/-- A drive's letter. -/
abbrev Letter := {c : Char // c.isUpper = true}

/-- A normalised path, taken apart. -/
inductive Place : PathStyle → Type
  /-- The names below `/`. -/
  | root (ns : List (Name .posix)) : Place .posix
  /-- The root of a Windows host, which holds its drives. -/
  | drives : Place .windows
  | drive (letter : Letter) (ns : List (Name .windows)) : Place .windows
  | share (server top : Name .windows) (ns : List (Name .windows)) : Place .windows

variable {style : PathStyle}

/-- The names as texts. -/
def texts (ns : List (Name style)) : List Text := ns.map Subtype.val

/-- The text of a place. -/
def Place.spell : {style : PathStyle} → Place style → Text
  | _, .root [] => ['/']
  | _, .root (n :: ns) => below '/' (texts (n :: ns))
  | _, .drives => windowsRoot
  | _, .drive letter [] => [letter.1, ':', '\\']
  | _, .drive letter (n :: ns) => letter.1 :: ':' :: below '\\' (texts (n :: ns))
  | _, .share server top ns => '\\' :: below '\\' (server.1 :: top.1 :: texts ns)

/-- The names of a place on a Windows host. -/
def Place.named : {style : PathStyle} → Place style → List Text
  | _, .root _ | _, .drives => []
  | _, .drive _ ns => texts ns
  | _, .share server top ns => server.1 :: top.1 :: texts ns

/-- No name of a place on a Windows host holds `%NAME%`. -/
def Place.Literal (a : Place style) : Prop := ∀ n ∈ a.named, namesVariable n = false

/-! ### Variables -/

/-- No name of a variable holds `c`, nor is it the sign around one. -/
def Apart (c : Char) : Prop := c ≠ '%' ∧ c.isAlpha = false ∧ c ≠ '_' ∧ variableChar c = false

variable {c : Char}

theorem variableTail_append_cons (hc : Apart c) (s t : Text) :
    variableTail (s ++ c :: t) = variableTail s := by
  obtain ⟨hpercent, halpha, hscore, hchar⟩ := hc
  cases s with
  | nil => simp [variableTail, halpha, hscore]
  | cons x s =>
    rw [cons_append, variableTail, variableTail, dropWhile_append]
    cases hs : s.dropWhile variableChar with
    | nil => simp [hchar, hpercent]
    | cons y ys => simp

theorem namesVariable_append_cons (hc : Apart c) (s t : Text) :
    namesVariable (s ++ c :: t) = (namesVariable s || namesVariable t) := by
  induction s with
  | nil => simp [namesVariable, hc.1]
  | cons x s ih =>
    rw [cons_append, namesVariable, namesVariable, variableTail_append_cons hc, ih, Bool.or_assoc]

theorem namesVariable_cons (hc : Apart c) (t : Text) :
    namesVariable (c :: t) = namesVariable t := by
  exact (namesVariable_append_cons hc [] t).trans (Bool.false_or _)

theorem namesVariable_below (hc : Apart c) (ns : List Text) :
    namesVariable (below c ns) = ns.any namesVariable := by
  induction ns with
  | nil => rfl
  | cons n ns ih =>
    rw [below_cons, cons_append, namesVariable_cons hc, any_cons]
    cases ns with
    | nil => simp
    | cons m ns =>
      rw [below_cons, cons_append, namesVariable_append_cons hc]
      rw [below_cons, cons_append, namesVariable_cons hc] at ih
      rw [ih]

theorem namesVariable_splitOn (hc : Apart c) (s : Text) :
    (s.splitOn c).any namesVariable = namesVariable s := by
  rw [← namesVariable_below hc, ← cons_intercalate c (splitOn_ne_nil c s),
    intercalate_splitOn, namesVariable_cons hc]

theorem apart_backslash : Apart '\\' := by unfold Apart; decide

theorem apart_colon : Apart ':' := by unfold Apart; decide

variable {s n : Text}

/-- A name out of a text without `%NAME%` holds none. -/
theorem namesVariable_of_mem_names (hc : Apart c)
    (hs : namesVariable s = false) (hn : n ∈ names c s) : namesVariable n = false := by
  rw [← namesVariable_splitOn hc, any_eq_false] at hs
  exact Bool.eq_false_iff.mpr (hs n (mem_filter.mp hn).1)

theorem variableTail_backslashed (s : Text) :
    variableTail (backslashed s) = variableTail s := by
  have hdrop (s : Text) : ((backslashed s).dropWhile variableChar).head? = some '%' ↔
      (s.dropWhile variableChar).head? = some '%' := by
    induction s with
    | nil => rfl
    | cons x s ih =>
      rw [backslashed, map_cons]
      by_cases hx : x = '/'
      · subst hx
        simp [variableChar]
      · rw [if_neg hx, dropWhile_cons, dropWhile_cons]
        split
        · exact ih
        · rfl
  cases s with
  | nil => rfl
  | cons x s =>
    rw [backslashed, map_cons, variableTail, variableTail]
    by_cases hx : x = '/'
    · subst hx
      simp
    · rw [if_neg hx]
      congr 1
      exact decide_eq_decide.mpr (hdrop s)

theorem namesVariable_backslashed (s : Text) :
    namesVariable (backslashed s) = namesVariable s := by
  induction s with
  | nil => rfl
  | cons x s ih =>
    have ih' : namesVariable (s.map fun c => if c = '/' then '\\' else c) = namesVariable s := ih
    have htail := variableTail_backslashed s
    rw [backslashed] at htail
    rw [backslashed, map_cons, namesVariable, namesVariable, ih', htail]
    by_cases hx : x = '/'
    · subst hx
      simp
    · rw [if_neg hx]

/-! ### Names of a place -/

theorem EntryName.apart (h : EntryName .windows n) : '\\' ∉ n := (h.windows rfl).1

theorem texts_cons (n : Name style) (ns : List (Name style)) :
    texts (n :: ns) = n.1 :: texts ns := rfl

theorem mem_texts {ns : List (Name style)} (h : n ∈ texts ns) : EntryName style n := by
  obtain ⟨m, -, rfl⟩ := mem_map.mp h
  exact m.2

theorem exists_texts {ns : List Text} (h : ∀ n ∈ ns, EntryName style n) :
    ∃ ms : List (Name style), texts ms = ns := by
  refine ⟨ns.pmap Subtype.mk h, ?_⟩
  rw [texts, map_pmap, pmap_eq_map, map_id']

theorem names_texts_posix (ns : List (Name .posix)) : names '/' (below '/' (texts ns)) = texts ns :=
  names_below '/' (fun _ hn => (mem_texts hn).not_slash) fun _ hn => (mem_texts hn).ne_nil

theorem names_texts_windows (ns : List (Name .windows)) :
    names '\\' (below '\\' (texts ns)) = texts ns :=
  names_below '\\' (fun _ hn => (mem_texts hn).apart) fun _ hn => (mem_texts hn).ne_nil

theorem dots_texts (ns : List (Name style)) : (texts ns).any isDots = false :=
  any_eq_false.mpr fun _ hn => Bool.eq_false_iff.mp (mem_texts hn).not_dots

theorem forbids_texts (ns : List (Name .windows)) :
    (texts ns).any (·.any windowsForbids) = false :=
  any_eq_false.mpr fun _ hn => Bool.eq_false_iff.mp ((mem_texts hn).windows rfl).2

/-! ### A POSIX path -/

theorem root_spell (ns : List (Name .posix)) :
    (Place.root ns).spell = '/' :: ['/'].intercalate (texts ns) := by
  cases ns with
  | nil => rfl
  | cons n ns => exact (cons_intercalate '/' (cons_ne_nil _ _)).symm

variable {path q : Text}

theorem normalisePosixPath_place (hnul : Char.ofNat 0 ∉ path)
    (h : normalisePosixPath path = .ok q) : ∃ a : Place .posix, a.spell = q := by
  unfold normalisePosixPath at h
  split at h
  · split at h
    · cases h
    · split at h <;> cases h
  · dsimp only at h
    split at h
    · cases h
    next hdots =>
      cases h
      have hnames : ∀ n ∈ names '/' path, EntryName .posix n := by
        intro n hn
        obtain ⟨hne, hslash, hmem⟩ := mem_names hn
        refine ⟨hne, ?_, fun h0 => hnul (hmem _ h0), hslash, nofun⟩
        rw [withoutDotSegments] at hdots
        split at hdots
        · cases hdots
        next hany =>
          exact Bool.eq_false_iff.mpr fun hd => hany (any_eq_true.mpr ⟨n, hn, hd⟩)
      obtain ⟨ns, hns⟩ := exists_texts hnames
      exact ⟨.root ns, by rw [root_spell, hns]⟩

theorem normalisePosixPath_spell (ns : List (Name .posix)) :
    normalisePosixPath (Place.root ns).spell = .ok (Place.root ns).spell := by
  have hnames : names '/' (Place.root ns).spell = texts ns := by
    cases ns with
    | nil => decide
    | cons n ns => exact names_texts_posix (n :: ns)
  have hhead : (Place.root ns).spell.head? = some '/' := by rw [root_spell]; rfl
  rw [normalisePosixPath, if_neg (by simp [hhead])]
  dsimp only
  rw [hnames, withoutDotSegments, dots_texts, if_neg Bool.false_ne_true, root_spell]

/-! ### A Windows path -/

/-- What a root's checks leave of the names after it. -/
def windowsTail (front : Text) (segments : List Text) : Text :=
  front ++ if segments = [] then ['\\'] else below '\\' segments

theorem windowsPathOf_drive (letter : Char) (rest : Text) :
    windowsPathOf [letter, ':', '\\'] rest =
      if (names '\\' rest).any isDots then
        .error dotsReason
      else if (names '\\' rest).any (·.any windowsForbids) then
        .error forbiddenReason
      else .ok (windowsTail [letter, ':'] (names '\\' rest)) := by
  have hdrop : (drop 2 [letter, ':', '\\']).splitOn '\\' = [[], []] := by
    change ['\\'].splitOn '\\' = _
    decide
  have htake : ¬ take 2 [letter, ':', '\\'] = ['\\', '\\'] := by simp
  have hdots : ([[], []] ++ names '\\' rest).any isDots = (names '\\' rest).any isDots := rfl
  unfold windowsPathOf
  dsimp only
  rw [hdrop, withoutDotSegments, hdots, if_neg htake, nil_append]
  cases (names '\\' rest).any isDots with
  | true => rfl
  | false =>
    rw [if_neg Bool.false_ne_true, if_neg Bool.false_ne_true]
    dsimp only
    split
    · rfl
    · by_cases hs : names '\\' rest = []
      · rw [if_pos hs, windowsTail, if_pos hs]
        rfl
      · rw [if_neg hs, windowsTail, if_neg hs, ← cons_intercalate '\\' hs]
        simp

theorem splitOn_server {server top : Text} (hserver : '\\' ∉ server) (htop : '\\' ∉ top) :
    (server ++ '\\' :: top).splitOn '\\' = [server, top] := by
  rw [splitOn_append_cons_self_of_not_mem hserver, splitOn_eq_singleton htop]

theorem windowsPathOf_share {server top : Text} (hserver : '\\' ∉ server) (htop : '\\' ∉ top)
    (hne : top ≠ []) (rest : Text) :
    windowsPathOf (['\\', '\\'] ++ server ++ '\\' :: top) rest =
      if (server :: top :: names '\\' rest).any isDots then
        .error dotsReason
      else if (server :: top :: names '\\' rest).any (·.any windowsForbids) then
        .error forbiddenReason
      else .ok ('\\' :: below '\\' (server :: top :: names '\\' rest)) := by
  have hdrop : (drop 2 (['\\', '\\'] ++ server ++ '\\' :: top)).splitOn '\\' =
      [server, top] := splitOn_server hserver htop
  have htake : take 2 (['\\', '\\'] ++ server ++ '\\' :: top) = ['\\', '\\'] := rfl
  have hlast : (['\\', '\\'] ++ server ++ '\\' :: top).getLast? ≠ some '\\' := by
    rw [getLast?_append_of_ne_nil _ (cons_ne_nil _ _), getLast?_cons_of_ne_nil hne]
    exact fun hlast => htop (mem_of_getLast? hlast)
  have hnamed : [server, top] ++ names '\\' rest = server :: top :: names '\\' rest := rfl
  unfold windowsPathOf
  dsimp only
  rw [hdrop, withoutDotSegments, if_pos htake, if_neg hlast, hnamed]
  cases (server :: top :: names '\\' rest).any isDots with
  | true => rfl
  | false =>
    rw [if_neg Bool.false_ne_true, if_neg Bool.false_ne_true]
    dsimp only
    split
    · rfl
    · by_cases hs : names '\\' rest = []
      · rw [if_pos hs, hs]
        simp
      · rw [if_neg hs, below_cons, below_cons, ← cons_intercalate '\\' hs]
        simp

theorem windowsRootOf_ok {root rest : Text} (h : windowsRootOf path = .ok (root, rest)) :
    (∃ letter, letter.isAlpha = true ∧ path = letter :: ':' :: rest ∧
      root = [letter.toUpper, ':', '\\']) ∨
    ∃ server top tail, path.take 2 = ['\\', '\\'] ∧
      (path.drop 2).splitOn '\\' = server :: top :: tail ∧ server ≠ [] ∧ top ≠ [] ∧
      root = ['\\', '\\'] ++ server ++ '\\' :: top ∧ rest = ['\\'].intercalate tail := by
  unfold windowsRootOf at h
  split at h
  next letter after hdrive =>
    split at h
    · cases h
    · cases h
      refine .inl ⟨letter, ?_⟩
      unfold driveOf at hdrive
      split at hdrive
      · split at hdrive
        next halpha =>
          cases hdrive
          exact ⟨halpha.1, by rw [halpha.2], rfl⟩
        · cases hdrive
      · cases hdrive
  · split at h
    next htake =>
      dsimp only at h
      split at h
      · cases h
      · split at h
        · cases h
        next hne =>
          cases h
          obtain ⟨hserver, htop⟩ := not_or.mp hne
          refine .inr ⟨(((path.drop 2).splitOn '\\')[0]?).getD [],
            (((path.drop 2).splitOn '\\')[1]?).getD [],
            ((path.drop 2).splitOn '\\').drop 2, htake, ?_, hserver, htop, rfl, rfl⟩
          cases hparts : (path.drop 2).splitOn '\\' with
          | nil => exact absurd hparts (splitOn_ne_nil _ _)
          | cons server parts =>
            cases parts with
            | nil => rw [hparts] at htop; exact absurd rfl htop
            | cons top tail => rfl
    · split at h <;> cases h

theorem names_rest {tail : List Text} (h : ∀ n ∈ tail, '\\' ∉ n) :
    names '\\' (['\\'].intercalate tail) = tail.filter (· ≠ []) := by
  cases tail with
  | nil => rfl
  | cons n tail => rw [names, splitOn_intercalate '\\' h (cons_ne_nil n tail)]

theorem entryName_windows (hne : n ≠ []) (hdots : isDots n = false)
    (hslash : '/' ∉ n) (hback : '\\' ∉ n) (hforbids : n.any windowsForbids = false) :
    EntryName .windows n where
  ne_nil := hne
  not_dots := hdots
  not_nul := fun hmem => absurd (any_eq_false.mp hforbids _ hmem) (by decide)
  not_slash := hslash
  windows := fun _ => ⟨hback, hforbids⟩

theorem windowsTail_drive (letter : Letter) (ns : List (Name .windows)) :
    windowsTail [letter.1, ':'] (texts ns) = (Place.drive letter ns).spell := by
  cases ns <;> rfl

theorem isUpper_toUpper (h : c.isAlpha = true) : c.toUpper.isUpper = true := by
  delta Char.isAlpha Char.isUpper Char.isLower at h
  simp only [Bool.or_eq_true, Bool.and_eq_true, decide_eq_true_eq] at h
  delta Char.toUpper
  refine decide_eq_true ?_
  split
  next hlower =>
    simp only [UInt32.le_iff_toNat_le] at hlower ⊢
    simp only [Char.reduceVal, UInt32.reduceToNat] at hlower
    have hval : c.toNat = c.val.toNat := rfl
    simp
    omega
  next hlower =>
    obtain h | h := h
    · exact h
    · exact absurd h hlower

/-- **What follows the checks of a Windows path.** -/
theorem windowsRest_place {root rest : Text} (hslash : '/' ∉ path)
    (hvariable : namesVariable path = false) (hroot : windowsRootOf path = .ok (root, rest))
    (h : windowsPathOf root rest = .ok q) : ∃ a : Place .windows, a.spell = q ∧ a.Literal := by
  obtain ⟨letter, halpha, rfl, rfl⟩ | ⟨server, top, tail, htake, hsplit, hserver, htop, rfl, rfl⟩ :=
    windowsRootOf_ok hroot
  · rw [windowsPathOf_drive] at h
    split at h
    · cases h
    next hdots =>
      split at h
      · cases h
      next hforbids =>
        cases h
        have hnames : ∀ n ∈ names '\\' rest, EntryName .windows n := by
          intro n hn
          obtain ⟨hne, hback, hmem⟩ := mem_names hn
          refine entryName_windows hne ?_ (fun hin => hslash ?_) hback ?_
          · exact Bool.eq_false_iff.mpr fun hd => hdots (any_eq_true.mpr ⟨n, hn, hd⟩)
          · exact mem_cons_of_mem _ (mem_cons_of_mem _ (hmem _ hin))
          · exact Bool.eq_false_iff.mpr fun hf => hforbids (any_eq_true.mpr ⟨n, hn, hf⟩)
        obtain ⟨ns, hns⟩ := exists_texts hnames
        refine ⟨.drive ⟨letter.toUpper, isUpper_toUpper halpha⟩ ns, ?_, fun n hn => ?_⟩
        · rw [← windowsTail_drive, hns]
        · rw [← singleton_append, namesVariable_append_cons apart_colon,
            Bool.or_eq_false_iff] at hvariable
          exact namesVariable_of_mem_names apart_backslash hvariable.2 (hns ▸ hn)
  · have hpieces : ∀ n ∈ server :: top :: tail, '\\' ∉ n := by
      rw [← hsplit]
      exact fun _ => not_mem_of_mem_splitOn
    obtain ⟨hback, hpieces'⟩ := forall_mem_cons.mp hpieces
    obtain ⟨hback', htail⟩ := forall_mem_cons.mp hpieces'
    rw [windowsPathOf_share hback hback' htop, names_rest htail] at h
    split at h
    · cases h
    next hdots =>
      split at h
      · cases h
      next hforbids =>
        cases h
        have hpath : path = '\\' :: '\\' :: path.drop 2 := by
          rw [← take_append_drop 2 path, htake]
          rfl
        have hmem : ∀ n ∈ server :: top :: tail.filter (· ≠ []),
            n ∈ (path.drop 2).splitOn '\\' ∧ n ≠ [] := by
          intro n hn
          rw [hsplit]
          obtain rfl | hn := mem_cons.mp hn
          · exact ⟨mem_cons_self, hserver⟩
          · obtain rfl | hn := mem_cons.mp hn
            · exact ⟨mem_cons_of_mem _ mem_cons_self, htop⟩
            · obtain ⟨hn, hne⟩ := mem_filter.mp hn
              exact ⟨mem_cons_of_mem _ (mem_cons_of_mem _ hn), of_decide_eq_true hne⟩
        have hnames : ∀ n ∈ server :: top :: tail.filter (· ≠ []), EntryName .windows n := by
          intro n hn
          obtain ⟨hpiece, hne⟩ := hmem n hn
          refine entryName_windows hne ?_ (fun hin => hslash ?_) (not_mem_of_mem_splitOn hpiece) ?_
          · exact Bool.eq_false_iff.mpr fun hd => hdots (any_eq_true.mpr ⟨n, hn, hd⟩)
          · exact mem_of_mem_drop (mem_of_mem_splitOn hpiece hin)
          · exact Bool.eq_false_iff.mpr fun hf => hforbids (any_eq_true.mpr ⟨n, hn, hf⟩)
        obtain ⟨hserver', hnames'⟩ := forall_mem_cons.mp hnames
        obtain ⟨htop', hnames''⟩ := forall_mem_cons.mp hnames'
        obtain ⟨ns, hns⟩ := exists_texts hnames''
        refine ⟨.share ⟨server, hserver'⟩ ⟨top, htop'⟩ ns, ?_, fun n hn => ?_⟩
        · rw [Place.spell, hns]
        · rw [hpath, namesVariable_cons apart_backslash, namesVariable_cons apart_backslash,
            ← namesVariable_splitOn apart_backslash, any_eq_false] at hvariable
          rw [Place.named, hns] at hn
          exact Bool.eq_false_iff.mpr (hvariable n (hmem n hn).1)

theorem not_slash_backslashed (s : Text) : '/' ∉ backslashed s := by
  intro hmem
  obtain ⟨c, -, hc⟩ := mem_map.mp hmem
  split at hc
  · cases hc
  next hne => exact hne hc

theorem namesVariable_dropWhile (s : Text) :
    namesVariable (s.dropWhile (· = '\\')) = namesVariable s := by
  induction s with
  | nil => rfl
  | cons c s ih =>
    rw [dropWhile_cons]
    split
    next hc => rw [ih, of_decide_eq_true hc, namesVariable_cons apart_backslash]
    · rfl

/-- Text without a slash and without `%NAME%`. -/
def Settled (s : Text) : Prop := '/' ∉ s ∧ namesVariable s = false

theorem Settled.slashedDrive (h : Settled s) :
    Settled (if slashedDrive s then s.drop 1 else s) := by
  split
  next hs =>
    cases s with
    | nil => exact h
    | cons c s =>
      rw [Files.slashedDrive, Bool.and_eq_true, decide_eq_true_eq] at hs
      refine ⟨not_mem_of_not_mem_cons h.1, ?_⟩
      rw [drop_one, tail_cons, ← namesVariable_cons apart_backslash, ← hs.1]
      exact h.2
  · exact h

theorem Settled.slashedShare (h : Settled s) :
    Settled (if slashedShare s then '\\' :: '\\' :: s.dropWhile (· = '\\') else s) := by
  split
  · refine ⟨?_, ?_⟩
    · intro hmem
      obtain hc | hmem := mem_cons.mp hmem
      · cases hc
      · obtain hc | hmem := mem_cons.mp hmem
        · cases hc
        · exact h.1 ((dropWhile_sublist _).mem hmem)
    · rw [namesVariable_cons apart_backslash, namesVariable_cons apart_backslash,
        namesVariable_dropWhile]
      exact h.2
  · exact h

theorem normaliseWindowsPath_place {input : Text} (h : normaliseWindowsPath input = .ok q) :
    ∃ a : Place .windows, a.spell = q ∧ a.Literal := by
  unfold normaliseWindowsPath at h
  split at h
  · cases h
  next hvariable =>
    dsimp only at h
    split at h
    · cases h
      exact ⟨.drives, rfl, nofun⟩
    · have hsettled : Settled (backslashed input) :=
        ⟨not_slash_backslashed input,
          (namesVariable_backslashed input).trans (Bool.eq_false_iff.mpr hvariable)⟩
      obtain ⟨hslash, hvariable⟩ := hsettled.slashedDrive.slashedShare
      split at h
      · cases h
      next hroot => exact windowsRest_place hslash hvariable hroot h

/-! ### A place is its own one form -/

theorem backslashed_self (h : '/' ∉ s) : backslashed s = s := by
  have hid : ∀ c ∈ s, (if c = '/' then '\\' else c) = id c :=
    fun c hc => if_neg fun (heq : c = '/') => h (heq ▸ hc)
  rw [backslashed, map_congr_left hid, map_id]

theorem normaliseWindowsPath_settled (h : Settled path)
    (hall : path.all (· = '\\') = false) (hdrive : slashedDrive path = false)
    (hshare : slashedShare path = false) :
    normaliseWindowsPath path =
      match windowsRootOf path with
      | .error reason => .error reason
      | .ok (root, rest) => windowsPathOf root rest := by
  rw [normaliseWindowsPath, if_neg (by simp [h.2])]
  dsimp only
  rw [backslashed_self h.1, if_neg (by simp [hall]), hdrive, if_neg Bool.false_ne_true, hshare,
    if_neg Bool.false_ne_true]

theorem Place.spell_drive (letter : Letter) (ns : List (Name .windows)) :
    (Place.drive letter ns).spell =
      letter.1 :: ':' :: if ns = [] then ['\\'] else below '\\' (texts ns) := by
  cases ns <;> rfl

theorem Letter.ne (letter : Letter) (h : c.isUpper = false) : letter.1 ≠ c :=
  fun heq => absurd (heq ▸ letter.2) (by simp [h])

theorem Letter.isAlpha (letter : Letter) : letter.1.isAlpha = true :=
  Bool.or_eq_true_iff.mpr (.inl letter.2)

theorem Letter.toUpper (letter : Letter) : letter.1.toUpper = letter.1 := by
  refine dif_neg fun hlower => ?_
  have hupper := of_decide_eq_true letter.2
  simp only [UInt32.le_iff_toNat_le, Char.reduceVal, UInt32.reduceToNat] at hupper hlower
  omega

theorem names_drive (ns : List (Name .windows)) :
    names '\\' (if ns = [] then ['\\'] else below '\\' (texts ns)) = texts ns := by
  cases ns with
  | nil => decide
  | cons n ns => exact names_texts_windows (n :: ns)

theorem mem_below {sep : Char} {ns : List Text} (h : c ∈ below sep ns) :
    c = sep ∨ ∃ n ∈ ns, c ∈ n := by
  obtain ⟨n, hn, hc⟩ := mem_flatMap.mp h
  exact (mem_cons.mp hc).imp id fun hc => ⟨n, hn, hc⟩

theorem not_slash_below (ns : List (Name .windows)) : '/' ∉ below '\\' (texts ns) := by
  intro hmem
  obtain hc | ⟨n, hn, hc⟩ := mem_below hmem
  · cases hc
  · exact (mem_texts hn).not_slash hc

theorem normaliseWindowsPath_drive (letter : Letter) (ns : List (Name .windows))
    (h : (Place.drive letter ns).Literal) :
    normaliseWindowsPath (Place.drive letter ns).spell = .ok (Place.drive letter ns).spell := by
  have hbelow : (if ns = [] then ['\\'] else below '\\' (texts ns)).head? = some '\\' := by
    cases ns <;> rfl
  have hletter : letter.1 ≠ '\\' := letter.ne (by decide)
  have hsettled : Settled (Place.drive letter ns).spell := by
    rw [Place.spell_drive]
    refine ⟨?_, ?_⟩
    · intro hmem
      obtain hc | hmem := mem_cons.mp hmem
      · exact letter.ne (by decide) hc.symm
      · obtain hc | hmem := mem_cons.mp hmem
        · cases hc
        · split at hmem
          · exact absurd hmem (by decide)
          · exact not_slash_below ns hmem
    · rw [← singleton_append, namesVariable_append_cons apart_colon, Bool.or_eq_false_iff]
      refine ⟨by simp [namesVariable, variableTail], ?_⟩
      split
      · decide
      · rw [namesVariable_below apart_backslash, any_eq_false]
        exact fun n hn => Bool.eq_false_iff.mp (h n hn)
  rw [normaliseWindowsPath_settled hsettled]
  · rw [Place.spell_drive, windowsRootOf, driveOf, if_pos ⟨letter.isAlpha, rfl⟩]
    dsimp only
    rw [if_neg (by simp [hbelow]), letter.toUpper]
    dsimp only
    rw [windowsPathOf_drive, names_drive, dots_texts, if_neg Bool.false_ne_true, forbids_texts,
      if_neg Bool.false_ne_true, windowsTail_drive, Place.spell_drive]
  · rw [Place.spell_drive, all_cons]
    simp [hletter]
  · rw [Place.spell_drive, slashedDrive]
    simp [hletter]
  · rw [Place.spell_drive, slashedShare, takeWhile_cons, if_neg (by simpa using hletter)]
    rfl

theorem names_share (server top : Name .windows) (ns : List (Name .windows)) :
    (server.1 ++ '\\' :: top.1 ++ below '\\' (texts ns)).splitOn '\\' =
      server.1 :: top.1 :: texts ns := by
  have hall : ∀ n ∈ top.1 :: texts ns, '\\' ∉ n := fun n hn =>
    (mem_cons.mp hn).elim (fun h => h ▸ top.2.apart) fun hn => (mem_texts hn).apart
  have hsplit := splitOn_below '\\' hall server.1 server.2.apart
  rw [append_assoc]
  exact hsplit

theorem Place.spell_share (server top : Name .windows) (ns : List (Name .windows)) :
    (Place.share server top ns).spell =
      '\\' :: '\\' :: (server.1 ++ '\\' :: top.1 ++ below '\\' (texts ns)) := by
  rw [Place.spell, below_cons, below_cons]
  simp

theorem EntryName.head (h : EntryName .windows n) : ∃ c rest, n = c :: rest ∧ c ≠ '\\' := by
  cases n with
  | nil => exact absurd rfl h.ne_nil
  | cons c rest => exact ⟨c, rest, rfl, fun heq => h.apart (heq ▸ mem_cons_self)⟩

theorem windowsRootOf_share (server top : Name .windows) (ns : List (Name .windows)) :
    windowsRootOf (Place.share server top ns).spell =
      .ok (['\\', '\\'] ++ server.1 ++ '\\' :: top.1, ['\\'].intercalate (texts ns)) := by
  have hquestion : server.1 ≠ ['?'] := fun heq =>
    absurd (server.2.windows rfl).2 (by rw [heq]; decide)
  have hdot : server.1 ≠ ['.'] := fun heq => absurd server.2.not_dots (by rw [heq]; decide)
  rw [Place.spell_share, windowsRootOf, driveOf, if_neg (by decide)]
  rw [take_succ_cons, take_succ_cons, take_zero, if_pos rfl,
    drop_succ_cons, drop_succ_cons, drop_zero, names_share]
  change (if server.1 = ['?'] ∨ server.1 = ['.'] then _
    else if server.1 = [] ∨ top.1 = [] then _ else _) = _
  rw [if_neg (by simp [hquestion, hdot]), if_neg (by simp [server.2.ne_nil, top.2.ne_nil])]
  rfl

theorem normaliseWindowsPath_share (server top : Name .windows) (ns : List (Name .windows))
    (h : (Place.share server top ns).Literal) :
    normaliseWindowsPath (Place.share server top ns).spell =
      .ok (Place.share server top ns).spell := by
  obtain ⟨c, rest, hserver, hc⟩ := server.2.head
  have hnames : names '\\' (['\\'].intercalate (texts ns)) = texts ns :=
    names_intercalate '\\' (fun _ hn => (mem_texts hn).apart) fun _ hn => (mem_texts hn).ne_nil
  have hnamed : server.1 :: top.1 :: texts ns = texts (server :: top :: ns) := rfl
  have hsettled : Settled (Place.share server top ns).spell := by
    rw [Place.spell, hnamed]
    refine ⟨?_, ?_⟩
    · intro hmem
      obtain hc | hmem := mem_cons.mp hmem
      · cases hc
      · exact not_slash_below _ hmem
    · rw [namesVariable_cons apart_backslash, namesVariable_below apart_backslash, any_eq_false]
      exact fun n hn => Bool.eq_false_iff.mp (h n hn)
  rw [normaliseWindowsPath_settled hsettled]
  · rw [windowsRootOf_share]
    dsimp only
    rw [windowsPathOf_share server.2.apart top.2.apart top.2.ne_nil, hnames, hnamed, dots_texts,
      if_neg Bool.false_ne_true, forbids_texts, if_neg Bool.false_ne_true]
    rfl
  · rw [Place.spell_share, hserver]
    simp [hc]
  · rw [Place.spell_share, hserver]
    simp [slashedDrive, driveOf]
  · rw [Place.spell_share, hserver, slashedShare]
    simp [hc]

theorem Place.spell_ne_nil (a : Place style) : a.spell ≠ [] := by
  cases a with
  | root ns => rw [root_spell]; exact cons_ne_nil _ _
  | drives | share => exact cons_ne_nil _ _
  | drive letter ns => rw [Place.spell_drive]; exact cons_ne_nil _ _

theorem not_nul_below {sep : Char} (hsep : sep ≠ Char.ofNat 0) (ns : List (Name style)) :
    Char.ofNat 0 ∉ below sep (texts ns) := by
  intro hmem
  obtain hc | ⟨n, hn, hc⟩ := mem_below hmem
  · exact hsep hc.symm
  · exact (mem_texts hn).not_nul hc

theorem Place.not_nul (a : Place style) : Char.ofNat 0 ∉ a.spell := by
  cases a with
  | root ns =>
    cases ns with
    | nil => decide
    | cons n ns => exact not_nul_below (by decide) (n :: ns)
  | drives => decide
  | drive letter ns =>
    rw [Place.spell_drive]
    refine not_mem_cons_of_ne_of_not_mem (letter.ne (by decide)).symm
      (not_mem_cons_of_ne_of_not_mem (by decide) ?_)
    split
    · decide
    · exact not_nul_below (by decide) ns
  | share server top ns =>
    exact not_mem_cons_of_ne_of_not_mem (by decide)
      (not_nul_below (by decide) (server :: top :: ns))

/-- **A place without `%NAME%` is its own one form.** -/
theorem normaliseHostPath_spell (a : Place style) (h : a.Literal) :
    normaliseHostPath a.spell style = .ok a.spell := by
  unfold normaliseHostPath
  rw [if_neg a.spell_ne_nil, if_neg a.not_nul]
  cases a with
  | root ns => exact normalisePosixPath_spell ns
  | drives => decide
  | drive letter ns => exact normaliseWindowsPath_drive letter ns h
  | share server top ns => exact normaliseWindowsPath_share server top ns h

/-- **The one form of a path is a place**, and none of its names holds `%NAME%`. -/
theorem normaliseHostPath_place (h : normaliseHostPath path style = .ok q) :
    ∃ a : Place style, a.spell = q ∧ a.Literal := by
  unfold normaliseHostPath at h
  split at h
  · cases h
  · split at h
    · cases h
    next hnul =>
      cases style with
      | posix =>
        obtain ⟨a, ha⟩ := normalisePosixPath_place hnul h
        cases a with
        | root ns => exact ⟨.root ns, ha, nofun⟩
      | windows => exact normaliseWindowsPath_place h

/-- A path with `%NAME%` in it has no one form on a Windows host. -/
theorem not_normalised_of_namesVariable (h : namesVariable path = true) :
    normaliseHostPath path .windows ≠ .ok q := by
  unfold normaliseHostPath
  split
  · nofun
  · split
    · nofun
    · rw [normaliseWindowsPath, if_pos h]
      nofun

end Lasterm.Files
