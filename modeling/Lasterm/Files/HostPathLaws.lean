import Lasterm.Files.HostPaths

/-!
# The algebra of a host's paths

What `joinHostPath`, `parentOf` and `baseNameOf` make of normalised paths
(`files/host-paths.ts`).  A name is written after the stem of its folder: the folder's text,
but for the separator that the root of a drive ends in.

## Main results

* `host_paths` — joining, the parent and the name, on both kinds of hosts.
-/

namespace Lasterm.Files

open Segments List
open Transfer.Build (Text UpperCase PathStyle joinHostPath)

variable {style : PathStyle}

/-! ### What a place is in, and what it holds -/

/-- The place of `n` in the folder `a`. -/
def Place.child : {style : PathStyle} → Place style → Name style → Place style
  | _, .root ns, n => .root (ns ++ [n])
  | _, .drives, _ => .drives
  | _, .drive letter ns, n => .drive letter (ns ++ [n])
  | _, .share server top ns, n => .share server top (ns ++ [n])

/-- What a name is written after, with a separator between. -/
def Place.stem : {style : PathStyle} → Place style → Text
  | _, .root ns => below '/' (texts ns)
  | _, .drives => []
  | _, .drive letter ns => letter.1 :: ':' :: below '\\' (texts ns)
  | _, .share server top ns => '\\' :: below '\\' (server.1 :: top.1 :: texts ns)

theorem texts_concat (ns : List (Name style)) (n : Name style) :
    texts (ns ++ [n]) = texts ns ++ [n.1] := by
  rw [texts, map_append, map_singleton, texts]

theorem Place.root_eq (ns : List (Name .posix)) :
    (Place.root ns).spell = if (Place.root ns).stem = [] then ['/'] else (Place.root ns).stem := by
  cases ns <;> rfl

theorem Place.root_child (ns : List (Name .posix)) (n : Name .posix) :
    ((Place.root ns).child n).spell = (Place.root ns).stem ++ '/' :: n.1 := by
  rw [Place.child, Place.root_eq, Place.stem, texts_concat, below_concat,
    if_neg (append_ne_nil_of_right_ne_nil _ (cons_ne_nil _ _)), Place.stem]

variable {c : Char}

theorem isDrive_cons (h : c.isUpper = false) (s : Text) : isDrive (c :: s) = false := by
  unfold isDrive
  split
  next heq =>
    obtain ⟨rfl, -⟩ := cons.inj heq
    rw [h, Bool.false_and]
  · rfl

theorem isDriveRoot_cons (h : c.isUpper = false) (s : Text) : isDriveRoot (c :: s) = false := by
  unfold isDriveRoot
  split
  next heq =>
    obtain ⟨rfl, -⟩ := cons.inj heq
    rw [h, Bool.false_and, Bool.false_and]
  · rfl

theorem Place.windows_eq {a : Place .windows} (h : a.spell ≠ windowsRoot) :
    a.spell = if isDrive a.stem then a.stem ++ ['\\'] else a.stem := by
  cases a with
  | drives => exact absurd rfl h
  | drive letter ns =>
    cases ns with
    | nil => simp [Place.spell, Place.stem, texts, isDrive, letter.2]
    | cons n ns => rfl
  | share server top ns =>
    have hdrive : isDrive (Place.share server top ns).stem = false := isDrive_cons (by decide) _
    rw [hdrive, if_neg Bool.false_ne_true]
    rfl

theorem Place.windows_child {a : Place .windows} (h : a.spell ≠ windowsRoot) (n : Name .windows) :
    (a.child n).spell = a.stem ++ '\\' :: n.1 := by
  cases a with
  | drives => exact absurd rfl h
  | drive letter ns =>
    rw [Place.child, Place.spell_drive, if_neg (by simp), texts_concat, below_concat, Place.stem]
    rfl
  | share server top ns =>
    rw [Place.child, Place.spell, texts_concat, ← cons_append, ← cons_append,
      below_concat, Place.stem]
    rfl

/-- A name written after `stem` is not the share of a server. -/
structure Stem (stem : Text) : Prop where
  ne_nil : stem ≠ []
  last : stem.getLast? ≠ some '\\'
  not_server : ∀ server, stem = '\\' :: '\\' :: server → '\\' ∈ server

theorem getLast?_below {ns : List (Name .windows)} (h : ns ≠ []) :
    (below '\\' (texts ns)).getLast? ≠ some '\\' := by
  obtain ⟨ms, n, rfl⟩ := eq_nil_or_concat' ns |>.resolve_left h
  rw [texts_concat, below_concat, getLast?_append_of_ne_nil _ (cons_ne_nil _ _),
    getLast?_cons_of_ne_nil n.2.ne_nil]
  exact fun hlast => n.2.apart (mem_of_getLast? hlast)

theorem Place.stem_windows {a : Place .windows} (h : a.spell ≠ windowsRoot) : Stem a.stem := by
  cases a with
  | drives => exact absurd rfl h
  | drive letter ns =>
    refine ⟨cons_ne_nil _ _, ?_, fun server heq => ?_⟩
    · cases ns with
      | nil => simp [Place.stem, texts]
      | cons n ns =>
        have hne : below '\\' (texts (n :: ns)) ≠ [] := cons_ne_nil _ _
        rw [Place.stem, getLast?_cons_of_ne_nil (cons_ne_nil _ _),
          getLast?_cons_of_ne_nil hne]
        exact getLast?_below (cons_ne_nil n ns)
    · exact absurd (cons.inj heq).1 (letter.ne (by decide))
  | share server top ns =>
    refine ⟨cons_ne_nil _ _, ?_, fun rest heq => ?_⟩
    · have hne : below '\\' (server.1 :: top.1 :: texts ns) ≠ [] := cons_ne_nil _ _
      rw [Place.stem, getLast?_cons_of_ne_nil hne]
      exact getLast?_below (cons_ne_nil server (top :: ns))
    · have hrest := (cons.inj (cons.inj heq).2).2
      rw [← hrest]
      exact mem_append_right _ mem_cons_self

/-! ### The laws -/

variable {n : Text}

theorem getLast?_append_name (hn : n ≠ []) (hback : '\\' ∉ n) (stem : Text) :
    (stem ++ '\\' :: n).getLast? ≠ some '\\' := by
  rw [getLast?_append_of_ne_nil _ (cons_ne_nil _ _), getLast?_cons_of_ne_nil hn]
  exact fun hlast => hback (mem_of_getLast? hlast)

theorem append_name_ne_root (stem n : Text) : stem ++ '\\' :: n ≠ windowsRoot := by
  intro heq
  have hmem : '\\' ∈ windowsRoot := heq ▸ mem_append_right _ mem_cons_self
  exact absurd hmem (by decide)

theorem isDriveRoot_append_name (hn : n ≠ []) (hback : '\\' ∉ n) (stem : Text) :
    isDriveRoot (stem ++ '\\' :: n) = false := by
  have hlast := getLast?_append_name hn hback stem
  unfold isDriveRoot
  split
  next letter colon slash heq =>
    rw [heq] at hlast
    have hslash : slash ≠ '\\' := by simpa using hlast
    simp [hslash]
  · rfl

variable {stem : Text}

theorem isShareRoot_append_name (hstem : Stem stem) :
    isShareRoot (stem ++ '\\' :: n) = false := by
  rw [isShareRoot, Bool.and_eq_false_iff]
  by_cases htake : take 2 (stem ++ '\\' :: n) = ['\\', '\\']
  · right
    match hs : stem with
    | [] => exact absurd rfl hstem.ne_nil
    | [c] => exact absurd (congrArg some (cons.inj htake).1) hstem.last
    | c :: d :: server =>
      obtain ⟨rfl, hd⟩ := cons.inj htake
      obtain ⟨rfl, -⟩ := cons.inj hd
      obtain ⟨a, b, rfl⟩ := append_of_mem (hstem.not_server server rfl)
      -- three pieces at least: those of `a`, of `b` and of the name
      have hsplit : (drop 2 ('\\' :: '\\' :: (a ++ '\\' :: b) ++ '\\' :: n)).splitOn '\\' =
          a.splitOn '\\' ++ b.splitOn '\\' ++ n.splitOn '\\' := by
        change (a ++ '\\' :: b ++ '\\' :: n).splitOn '\\' = _
        rw [splitOn_append_cons_self, splitOn_append_cons_self]
      have hpieces (s : Text) : 0 < (s.splitOn '\\').length :=
        length_pos_iff.mpr (splitOn_ne_nil _ _)
      split
      next heq =>
        have hlength := congrArg length (hsplit.symm.trans heq)
        rw [length_append, length_append] at hlength
        have ha := hpieces a
        have hb := hpieces b
        have hname := hpieces n
        simp only [length_cons, length_nil] at hlength
        omega
      · rfl
  · exact .inl (decide_eq_false htake)

theorem parentOf_append_name (hstem : Stem stem) (hn : n ≠ []) (hback : '\\' ∉ n) :
    parentOf (stem ++ '\\' :: n) .windows =
      some (if isDrive stem then stem ++ ['\\'] else stem) := by
  rw [parentOf, if_neg (append_name_ne_root stem n), isDriveRoot_append_name hn hback,
    if_neg Bool.false_ne_true, isShareRoot_append_name hstem, if_neg Bool.false_ne_true]
  rw [sliceTo_lastIndexOf stem hback]

theorem baseNameOf_append_name (hn : n ≠ []) (hback : '\\' ∉ n) (stem : Text) :
    baseNameOf (stem ++ '\\' :: n) .windows = n := by
  rw [baseNameOf, if_neg (append_name_ne_root stem n), isDriveRoot_append_name hn hback,
    if_neg Bool.false_ne_true, sliceFrom_lastIndexOf stem hback]

theorem parentOf_append_posix (stem : Text) (hn : n ≠ []) (hslash : '/' ∉ n) :
    parentOf (stem ++ '/' :: n) .posix = some (if stem = [] then ['/'] else stem) := by
  have hne : stem ++ '/' :: n ≠ ['/'] := by
    cases stem with
    | nil => simpa using hn
    | cons c stem => simp
  rw [parentOf, if_neg hne]
  dsimp only
  rw [sliceTo_lastIndexOf stem hslash, lastIndexOf_append_cons stem hslash]
  simp

theorem baseNameOf_append_posix (stem : Text) (hn : n ≠ []) (hslash : '/' ∉ n) :
    baseNameOf (stem ++ '/' :: n) .posix = n := by
  have hne : stem ++ '/' :: n ≠ ['/'] := by
    cases stem with
    | nil => simpa using hn
    | cons c stem => simp
  rw [baseNameOf, if_neg hne, sliceFrom_lastIndexOf stem hslash]

/-- The segments of a normalised path after its root; a share's start with its server. -/
def innerSegments (path : Text) : PathStyle → List Text
  | .posix => if path = ['/'] then [] else (path.drop 1).splitOn '/'
  | .windows =>
    if path = windowsRoot then []
    else if isDriveRoot path then [path.take 2]
    else (if path.take 2 = ['\\', '\\'] then path.drop 2 else path).splitOn '\\'

/-- No segment of a place is empty, `.` or `..`. -/
theorem Place.segments (a : Place style) :
    ∀ s ∈ innerSegments a.spell style, s ≠ [] ∧ isDots s = false := by
  have hnames {style : PathStyle} (ns : List (Name style)) :
      ∀ s ∈ texts ns, s ≠ [] ∧ isDots s = false :=
    fun s hs => ⟨(mem_texts hs).ne_nil, (mem_texts hs).not_dots⟩
  cases a with
  | root ns =>
    cases ns with
    | nil => rintro s ⟨⟩
    | cons n ns =>
      have hsplit : innerSegments (Place.root (n :: ns)).spell .posix = texts (n :: ns) := by
        have hbelow : (Place.root (n :: ns)).spell = '/' :: (n.1 ++ below '/' (texts ns)) := rfl
        rw [hbelow, innerSegments, if_neg (by simp [n.2.ne_nil]), drop_one, tail_cons]
        exact splitOn_below '/' (fun _ hn => (mem_texts hn).not_slash) n.1 n.2.not_slash
      rw [hsplit]
      exact hnames (n :: ns)
  | drives => rintro s ⟨⟩
  | drive letter ns =>
    have hdrive : [letter.1, ':'] ≠ [] ∧ isDots [letter.1, ':'] = false := by simp [isDots]
    cases ns with
    | nil =>
      have hsegments :
          innerSegments (Place.drive letter []).spell .windows = [[letter.1, ':']] := by
        have hroot : isDriveRoot [letter.1, ':', '\\'] = true := by simp [isDriveRoot, letter.2]
        rw [Place.spell, innerSegments, if_neg (by simp [windowsRoot]), hroot, if_pos rfl]
        rfl
      rw [hsegments]
      exact fun s hs => mem_singleton.mp hs ▸ hdrive
    | cons n ns =>
      have hletter : letter.1 ≠ '\\' := letter.ne (by decide)
      have hback : '\\' ∉ [letter.1, ':'] := by simp [hletter.symm]
      have hsegments : innerSegments (Place.drive letter (n :: ns)).spell .windows =
          [letter.1, ':'] :: texts (n :: ns) := by
        have hroot : (Place.drive letter (n :: ns)).spell ≠ windowsRoot ∧
            isDriveRoot (Place.drive letter (n :: ns)).spell = false := by
          obtain ⟨ms, m, heq⟩ := (eq_nil_or_concat' (n :: ns)).resolve_left (by simp)
          have hspell := Place.windows_child (a := .drive letter ms)
            (by rw [Place.spell_drive]; intro h; cases (cons.inj h).2) m
          rw [Place.child, ← heq] at hspell
          rw [hspell]
          exact ⟨append_name_ne_root _ _, isDriveRoot_append_name m.2.ne_nil m.2.apart _⟩
        have htake : take 2 (Place.drive letter (n :: ns)).spell ≠ ['\\', '\\'] :=
          fun h => hletter (cons.inj h).1
        rw [innerSegments, if_neg hroot.1, hroot.2, if_neg Bool.false_ne_true, if_neg htake]
        exact splitOn_below '\\' (fun _ hn => (mem_texts hn).apart) _ hback
      rw [hsegments]
      exact forall_mem_cons.mpr ⟨hdrive, hnames (n :: ns)⟩
  | share server top ns =>
    have hsegments : innerSegments (Place.share server top ns).spell .windows =
        texts (server :: top :: ns) := by
      have hne : (Place.share server top ns).spell ≠ windowsRoot := by
        rw [Place.spell_share]
        intro h
        cases (cons.inj h).2
      have hroot : isDriveRoot (Place.share server top ns).spell = false :=
        isDriveRoot_cons (by decide) _
      have htake : take 2 (Place.share server top ns).spell = ['\\', '\\'] := by
        rw [Place.spell_share]
        rfl
      rw [innerSegments, if_neg hne, hroot, if_neg Bool.false_ne_true, if_pos htake,
        Place.spell_share, drop_succ_cons, drop_succ_cons, drop_zero, names_share]
      rfl
    rw [hsegments]
    exact hnames (server :: top :: ns)

/-- What names an entry of the folder: on a Windows host those of the root are drives. -/
def ValidEntry (style : PathStyle) (folder n : Text) : Prop :=
  if style = .windows ∧ folder = windowsRoot then isDrive n = true else EntryName style n

/-- The letters of the drives are their own upper case. -/
def KeepsLetters (u : UpperCase) : Prop := ∀ c : Char, c.isUpper = true → u.upper c = [c]

theorem joinHostPath_root_posix (u : UpperCase) (ns : List (Name .posix)) (n : Text) :
    joinHostPath u (Place.root ns).spell n .posix = (Place.root ns).stem ++ '/' :: n := by
  rw [Place.root_eq, joinHostPath]
  by_cases hstem : (Place.root ns).stem = []
  · rw [if_pos hstem, if_pos rfl, hstem, nil_append]
  · rw [if_neg hstem, if_neg]
    cases ns with
    | nil => exact absurd rfl hstem
    | cons m ns => simp [Place.stem, texts_cons, m.2.ne_nil]

theorem joinHostPath_posix (u : UpperCase) (ns : List (Name .posix)) (n : Name .posix) :
    joinHostPath u (Place.root ns).spell n.1 .posix = ((Place.root ns).child n).spell := by
  rw [Place.root_child, joinHostPath_root_posix]

theorem joinHostPath_stem (u : UpperCase) {folder : Text} (hstem : Stem stem)
    (hne : folder ≠ windowsRoot)
    (hfolder : folder = stem ∨ folder = stem ++ ['\\']) (n : Text) :
    joinHostPath u folder n .windows = stem ++ '\\' :: n := by
  have hjoin : joinHostPath u folder n .windows =
      folder ++ (if folder.getLast? = some '\\' then [] else ['\\']) ++ n := if_neg hne
  rw [hjoin]
  obtain rfl | rfl := hfolder
  · rw [if_neg hstem.last]
    simp
  · rw [if_pos (by simp)]
    simp

theorem Place.folder_eq {a : Place .windows} (h : a.spell ≠ windowsRoot) :
    a.spell = a.stem ∨ a.spell = a.stem ++ ['\\'] := by
  rw [Place.windows_eq h]
  split
  · exact .inr rfl
  · exact .inl rfl

theorem joinHostPath_windows (u : UpperCase) {a : Place .windows} (h : a.spell ≠ windowsRoot)
    (n : Name .windows) : joinHostPath u a.spell n.1 .windows = (a.child n).spell := by
  rw [Place.windows_child h, joinHostPath_stem u (Place.stem_windows h) h (Place.folder_eq h)]

theorem Place.named_child {a : Place .windows} (h : a.spell ≠ windowsRoot) (n : Name .windows) :
    (a.child n).named = a.named ++ [n.1] := by
  cases a with
  | drives => exact absurd rfl h
  | drive letter ns => exact texts_concat ns n
  | share server top ns =>
    rw [Place.child, Place.named, texts_concat, Place.named]
    rfl

theorem namesVariable_child {a : Place .windows} (h : a.spell ≠ windowsRoot) (n : Name .windows)
    (hn : namesVariable n.1 = true) : namesVariable (a.child n).spell = true := by
  rw [Place.windows_child h, namesVariable_append_cons apart_backslash, hn, Bool.or_true]

theorem join_normalised_windows {a : Place .windows} (ha : a.Literal) (h : a.spell ≠ windowsRoot)
    (n : Name .windows) :
    normaliseHostPath (a.child n).spell .windows = .ok (a.child n).spell ↔
      namesVariable n.1 = false := by
  constructor
  · intro hok
    by_contra hvariable
    have hvariable' := Bool.eq_true_of_not_eq_false hvariable
    exact not_normalised_of_namesVariable (namesVariable_child h n hvariable') hok
  · intro hvariable
    refine normaliseHostPath_spell _ fun m hm => ?_
    rw [Place.named_child h] at hm
    obtain hm | hm := mem_append.mp hm
    · exact ha m hm
    · exact mem_singleton.mp hm ▸ hvariable

theorem join_drive {u : UpperCase} (hu : KeepsLetters u) (hn : isDrive n = true) :
    ∃ letter : Letter, n = [letter.1, ':'] ∧
      joinHostPath u windowsRoot n .windows = (Place.drive letter []).spell := by
  unfold isDrive at hn
  split at hn
  next letter colon =>
    rw [Bool.and_eq_true, decide_eq_true_eq] at hn
    obtain ⟨hupper, rfl⟩ := hn
    have hne : letter ≠ ':' ∧ letter ≠ '\\' :=
      ⟨Letter.ne ⟨letter, hupper⟩ (by decide), Letter.ne ⟨letter, hupper⟩ (by decide)⟩
    refine ⟨⟨letter, hupper⟩, rfl, ?_⟩
    have hstrip : ([letter, ':'].reverse.dropWhile fun c => c = ':' || c = '\\').reverse =
        [letter] := by
      simp [hne]
    have hjoin : joinHostPath u windowsRoot [letter, ':'] .windows =
        u.text ([letter, ':'].reverse.dropWhile fun c => c = ':' || c = '\\').reverse ++
          [':', '\\'] := rfl
    rw [hjoin, hstrip, UpperCase.text, flatMap_cons, hu letter hupper]
    rfl
  · cases hn

/-- **The algebra of paths.**  The one form of a path is its own, and no segment of it is
empty, `.` or `..`.  The path of an entry of a normalised folder is in that folder and has
that name, and it is normalised unless the host is a Windows one and the name holds
`%NAME%`. -/
theorem host_paths (u : UpperCase) (hu : KeepsLetters u) (style : PathStyle) :
    (∀ path q, normaliseHostPath path style = .ok q →
      normaliseHostPath q style = .ok q ∧
        ∀ s ∈ innerSegments q style, s ≠ [] ∧ isDots s = false) ∧
    ∀ folder n, normaliseHostPath folder style = .ok folder → ValidEntry style folder n →
      parentOf (joinHostPath u folder n style) style = some folder ∧
      baseNameOf (joinHostPath u folder n style) style = n ∧
      (normaliseHostPath (joinHostPath u folder n style) style =
          .ok (joinHostPath u folder n style) ↔
        ¬ (style = .windows ∧ namesVariable n = true)) := by
  constructor
  · intro path q h
    obtain ⟨a, rfl, hliteral⟩ := normaliseHostPath_place h
    exact ⟨normaliseHostPath_spell a hliteral, a.segments⟩
  · intro folder n hfolder hn
    obtain ⟨a, rfl, hliteral⟩ := normaliseHostPath_place hfolder
    cases style with
    | posix =>
      cases a with
      | root ns =>
        have hname : EntryName .posix n := by simpa [ValidEntry] using hn
        rw [joinHostPath_posix u ns ⟨n, hname⟩]
        refine ⟨?_, ?_, ?_⟩
        · rw [Place.root_child, parentOf_append_posix _ hname.ne_nil hname.not_slash,
            Place.root_eq]
        · rw [Place.root_child, baseNameOf_append_posix _ hname.ne_nil hname.not_slash]
        · exact iff_of_true (normaliseHostPath_spell _ (by rintro _ ⟨⟩)) (by simp)
    | windows =>
      by_cases hroot : a.spell = windowsRoot
      · have hdrive : isDrive n = true := by simpa [ValidEntry, hroot] using hn
        obtain ⟨letter, rfl, hjoin⟩ := join_drive hu hdrive
        rw [hroot, hjoin]
        have hspell : isDriveRoot (Place.drive letter []).spell = true := by
          simp [Place.spell, isDriveRoot, letter.2]
        have hne : (Place.drive letter []).spell ≠ windowsRoot := by
          simp [Place.spell, windowsRoot]
        refine ⟨?_, ?_, ?_⟩
        · rw [parentOf, if_neg hne, hspell, if_pos rfl]
        · rw [baseNameOf, if_neg hne, hspell, if_pos rfl]
          rfl
        · refine iff_of_true (normaliseHostPath_spell _ (by rintro _ ⟨⟩)) ?_
          simp [namesVariable, variableTail]
      · have hname : EntryName .windows n := by simpa [ValidEntry, hroot] using hn
        rw [joinHostPath_windows u hroot ⟨n, hname⟩]
        refine ⟨?_, ?_, ?_⟩
        · rw [Place.windows_child hroot, parentOf_append_name (Place.stem_windows hroot)
            hname.ne_nil hname.apart, ← Place.windows_eq hroot]
        · rw [Place.windows_child hroot, baseNameOf_append_name hname.ne_nil hname.apart]
        · rw [join_normalised_windows hliteral hroot]
          simp

theorem toUpper_eq_iff {d : Char} (hd : d.isAlpha = false) : c.toUpper = d ↔ c = d := by
  by_cases hlower : 'a'.val ≤ c.val ∧ c.val ≤ 'z'.val
  · have halpha : c.isAlpha = true := Bool.or_eq_true_iff.mpr
      (.inr (Bool.and_eq_true_iff.mpr (hlower.imp decide_eq_true decide_eq_true)))
    refine iff_of_false (fun heq => ?_) fun heq => ?_
    · have hupper := isUpper_toUpper halpha
      rw [heq] at hupper
      exact absurd (Bool.or_eq_false_iff.mp hd).1 (by simp [hupper])
    · rw [← heq, halpha] at hd
      cases hd
  · have hsame : c.toUpper = c := dif_neg hlower
    rw [hsame]

/-- The upper case of the letters of ASCII, and of nothing else. -/
def asciiUpper : UpperCase where
  upper := fun c => [c.toUpper]
  slash := fun c => by
    have hslash : c.toUpper = '/' ↔ c = '/' := toUpper_eq_iff (by decide)
    by_cases hc : c = '/'
    · rw [if_pos hc, hslash.mpr hc]
      rfl
    · rw [if_neg hc, count_singleton, if_neg (by simpa using fun h => hc (hslash.mp h))]

theorem asciiUpper_keepsLetters : KeepsLetters asciiUpper :=
  fun c h => congrArg ([·]) (Letter.toUpper ⟨c, h⟩)

theorem host_paths_users :
    parentOf (joinHostPath asciiUpper "C:\\".toList "Users".toList .windows) .windows =
      some "C:\\".toList := by
  have hfolder : normaliseHostPath "C:\\".toList .windows = .ok "C:\\".toList := by decide
  have hentry : ValidEntry .windows "C:\\".toList "Users".toList := by
    rw [ValidEntry, if_neg (by decide)]
    exact ⟨by decide, by decide, by decide, by decide, fun _ => by decide⟩
  exact ((host_paths asciiUpper asciiUpper_keepsLetters .windows).2 _ _ hfolder hentry).1

/-- **A name a Windows folder can hold, whose path is refused.** -/
theorem not_normalised_join :
    ¬ ∀ (u : UpperCase), KeepsLetters u → ∀ (style : PathStyle) (folder n : Text),
      normaliseHostPath folder style = .ok folder → ValidEntry style folder n →
        normaliseHostPath (joinHostPath u folder n style) style =
          .ok (joinHostPath u folder n style) := by
  intro h
  have hentry : ValidEntry .windows "C:\\".toList "%A%".toList := by
    rw [ValidEntry, if_neg (by decide)]
    exact ⟨by decide, by decide, by decide, by decide, fun _ => by decide⟩
  have hok := h asciiUpper asciiUpper_keepsLetters .windows "C:\\".toList "%A%".toList
    (by decide) hentry
  exact not_normalised_of_namesVariable (by decide) hok

end Lasterm.Files
