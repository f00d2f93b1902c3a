import Lasterm.Transfer.Upload

/-!
# The cards of an upload's conflicts

What an upload waits for an answer on is shown on cards (`utils/transfers-view.ts`): one for each
folder that exists where it goes and has files waiting under it, the top ones only, and one for each
item that no such folder covers.

Of a folder's card the answer Replace is for the files that take it: the hub passes over the others
(`resolve`).  A folder that is itself in conflict under another folder's card is on none.

## Main results

* `asked_once` — on how many cards an item is, which cards there are, and when Replace is offered.
* `replace_offered_to_mixed` — a card that offers it to files that do not take it.
-/

namespace Lasterm.Web.Conflicts

open List

open Lasterm.Transfer (ItemState)
open Lasterm.Transfer.Uploads (Kind)

/-- An item of an upload, as far as its conflict goes. -/
structure UploadItemView where
  itemId : ℕ
  kind : Kind
  relPath : List Char
  state : ItemState
  typeClash : Bool
  deriving DecidableEq

/-- `TransferFolderConflicts`: how many files of a folder conflict. -/
structure TransferFolderConflicts where
  itemId : ℕ
  conflicting : ℕ
  total : ℕ

/-- An upload as a window shows it. -/
structure UploadView where
  items : List UploadItemView
  folderConflicts : List TransferFolderConflicts

/-- A folder's card. -/
structure FolderConflict where
  item : UploadItemView
  conflicting : ℕ
  total : ℕ
  waiting : List UploadItemView

/-- `TransferConflictAction`. -/
inductive Action
  | skip
  | keepBoth
  | replace
  deriving DecidableEq

/-- `path.startsWith(top + "/")`. -/
def isUnder (path top : List Char) : Bool := (top ++ ['/']).isPrefixOf path

/-- `path.split("/").length`. -/
def depth (path : List Char) : ℕ := path.count '/' + 1

namespace UploadView

variable (upload : UploadView)

/-- The `Map` of the items by their ids, where the last of an id stands. -/
def byId (itemId : ℕ) : Option UploadItemView :=
  upload.items.reverse.find? fun item => item.itemId = itemId

/-- The files waiting under a folder. -/
def waitingUnder (item : UploadItemView) : List UploadItemView :=
  upload.items.filter fun other =>
    other.kind = .file ∧ other.state = .conflict ∧ isUnder other.relPath item.relPath

/-- The folders, the top ones first. -/
def sorted : List (TransferFolderConflicts × UploadItemView) :=
  (upload.folderConflicts.filterMap fun fc => (upload.byId fc.itemId).map (fc, ·)).insertionSort
    fun a b => depth a.2.relPath ≤ depth b.2.relPath

/-- A turn of the loop of `folderConflicts`: the paths shown and the cards, with one more folder. -/
def next (s : List (List Char) × List FolderConflict)
    (x : TransferFolderConflicts × UploadItemView) : List (List Char) × List FolderConflict :=
  if s.1.any (isUnder x.2.relPath) then s
  else
    let waiting := upload.waitingUnder x.2
    if waiting = [] then s
    else (s.1 ++ [x.2.relPath], s.2 ++ [⟨x.2, x.1.conflicting, x.1.total, waiting⟩])

/-- The source's `folderConflicts`. -/
def cards : List FolderConflict := (upload.sorted.foldl upload.next ([], [])).2

/-- The source's `fileConflicts`. -/
def fileConflicts : List UploadItemView :=
  upload.items.filter fun item =>
    item.state = .conflict ∧ !(upload.cards.map (·.item.relPath)).any (isUnder item.relPath)

/-- The items form a tree, and the hub counted each folder once. -/
structure IsTree : Prop where
  ids : (upload.items.map (·.itemId)).Nodup
  paths : (upload.items.map (·.relPath)).Nodup
  counted : (upload.folderConflicts.map (·.itemId)).Nodup

end UploadView

/-- The source's `conflictActions`. -/
def conflictActions (items : List UploadItemView) : List Action :=
  if items.any (·.typeClash) && items.all (·.typeClash) then [.keepBoth, .skip]
  else [.skip, .keepBoth, .replace]

/-! ### Paths -/

section paths

variable {path a b : List Char}

/-- A path under another is the deeper of the two. -/
theorem depth_lt (h : isUnder path a = true) : depth a < depth path := by
  obtain ⟨t, rfl⟩ := isPrefixOf_iff_prefix.mp h
  simp only [depth, count_append, count_singleton_self]
  omega

/-- Two folders over one path are nested, or one. -/
theorem nested_of_isUnder (ha : isUnder path a = true) (hb : isUnder path b = true) :
    isUnder a b = true ∨ isUnder b a = true ∨ a = b := by
  simp only [isUnder, isPrefixOf_iff_prefix] at *
  obtain h | h := prefix_or_prefix_of_prefix ha hb
  · obtain h | h := prefix_concat_iff.mp h
    · exact .inr (.inr (append_cancel_right h))
    · exact .inr (.inl h)
  · obtain h | h := prefix_concat_iff.mp h
    · exact .inr (.inr (append_cancel_right h).symm)
    · exact .inl h

end paths

/-! ### The loop -/

/-- Neither folder is the other or under it. -/
def Apart (a b : UploadItemView) : Prop :=
  isUnder a.relPath b.relPath = false ∧ isUnder b.relPath a.relPath = false ∧ a.relPath ≠ b.relPath

/-- What holds of the cards once these folders were gone through. -/
structure Cards (upload : UploadView) (seen : List (TransferFolderConflicts × UploadItemView))
    (s : List (List Char) × List FolderConflict) : Prop where
  shown : s.1 = s.2.map (·.item.relPath)
  waiting : ∀ c ∈ s.2, c.waiting = upload.waitingUnder c.item
  seen : ∀ c ∈ s.2, ∃ x ∈ seen, x.2 = c.item
  apart : s.2.Pairwise fun a b => Apart a.item b.item

variable {upload : UploadView} {s : List (List Char) × List FolderConflict}
  {seen : List (TransferFolderConflicts × UploadItemView)}
  {x : TransferFolderConflicts × UploadItemView}

/-- The next of the folders in conflict. -/
theorem Cards.next (h : Cards upload seen s)
    (hx : ∀ y ∈ seen, depth y.2.relPath ≤ depth x.2.relPath ∧ y.2.relPath ≠ x.2.relPath) :
    Cards upload (seen ++ [x]) (upload.next s x) := by
  have hseen : ∀ c ∈ s.2, ∃ y ∈ seen ++ [x], y.2 = c.item := fun c hc =>
    (h.seen c hc).imp fun _ hy => ⟨mem_append_left _ hy.1, hy.2⟩
  unfold UploadView.next
  dsimp only
  split
  · exact ⟨h.shown, h.waiting, hseen, h.apart⟩
  next hnot =>
    split
    · exact ⟨h.shown, h.waiting, hseen, h.apart⟩
    · refine ⟨by simp [h.shown], fun c hc => ?_, fun c hc => ?_, ?_⟩
      · obtain hc | hc := mem_append.mp hc
        · exact h.waiting c hc
        · rw [mem_singleton.mp hc]
      · obtain hc | hc := mem_append.mp hc
        · exact hseen c hc
        · exact ⟨x, by simp, by rw [mem_singleton.mp hc]⟩
      · refine pairwise_append.mpr ⟨h.apart, pairwise_singleton _ _, fun c hc d hd => ?_⟩
        obtain rfl := mem_singleton.mp hd
        obtain ⟨y, hy, hyc⟩ := h.seen c hc
        obtain ⟨hdepth, hne⟩ := hx y hy
        rw [hyc] at hdepth hne
        -- a folder that comes later is not above one that came before
        refine ⟨Bool.eq_false_iff.mpr fun hu => absurd (depth_lt hu) (Nat.not_lt.mpr hdepth),
          Bool.eq_false_iff.mpr fun hu => hnot ?_, hne⟩
        rw [h.shown, any_map]
        exact any_eq_true.mpr ⟨c, hc, hu⟩

theorem Cards.foldl {l : List (TransferFolderConflicts × UploadItemView)} (h : Cards upload seen s)
    (hl : (seen ++ l).Pairwise fun a b =>
      depth a.2.relPath ≤ depth b.2.relPath ∧ a.2.relPath ≠ b.2.relPath) :
    Cards upload (seen ++ l) (l.foldl upload.next s) := by
  induction l generalizing seen s with
  | nil => simpa using h
  | cons x l ih =>
    rw [foldl_cons, append_cons]
    refine ih (h.next fun y hy => ?_) (by rwa [append_assoc])
    exact (pairwise_append.mp hl).2.2 y hy x mem_cons_self

namespace UploadView

/-- What is found by its id is an item of the upload. -/
theorem mem_of_byId {i : ℕ} {item : UploadItemView} (h : upload.byId i = some item) :
    item ∈ upload.items ∧ item.itemId = i :=
  ⟨mem_reverse.mp (mem_of_find?_eq_some h), by simpa using find?_some h⟩

namespace IsTree

variable (h : upload.IsTree)

include h

/-- The folders are sorted by depth, and no path is there twice. -/
theorem pairwise_sorted : upload.sorted.Pairwise fun a b =>
    depth a.2.relPath ≤ depth b.2.relPath ∧ a.2.relPath ≠ b.2.relPath := by
  have hdistinct : (upload.folderConflicts.filterMap fun fc =>
      (upload.byId fc.itemId).map (fc, ·)).Pairwise fun a b => a.2.relPath ≠ b.2.relPath := by
    refine Pairwise.filterMap _ ?_ (pairwise_map.mp h.counted)
    rintro fc fc' hne a ha b hb hpath
    obtain ⟨item, hitem, rfl⟩ := Option.map_eq_some_iff.mp ha
    obtain ⟨item', hitem', rfl⟩ := Option.map_eq_some_iff.mp hb
    obtain ⟨hmem, hid⟩ := mem_of_byId hitem
    obtain ⟨hmem', hid'⟩ := mem_of_byId hitem'
    obtain rfl : item = item' := inj_on_of_nodup_map h.paths hmem hmem' hpath
    exact hne (hid.symm.trans hid')
  have htotal : Std.Total fun a b : TransferFolderConflicts × UploadItemView =>
      depth a.2.relPath ≤ depth b.2.relPath := ⟨fun _ _ => le_total _ _⟩
  have htrans : IsTrans (TransferFolderConflicts × UploadItemView) fun a b =>
      depth a.2.relPath ≤ depth b.2.relPath := ⟨fun _ _ _ => le_trans⟩
  refine (pairwise_insertionSort _ _).and ?_
  exact ((perm_insertionSort _ _).pairwise_iff fun hne => Ne.symm hne).mpr hdistinct

/-- What the loop makes of all folders in conflict. -/
theorem cards : Cards upload upload.sorted (upload.sorted.foldl upload.next ([], [])) := by
  have hstart : Cards upload [] ([], []) := ⟨rfl, nofun, nofun, .nil⟩
  exact hstart.foldl h.pairwise_sorted

variable {item : UploadItemView}

/-- At most one card is for a folder over a path. -/
theorem countP_isUnder (path : List Char) :
    upload.cards.countP (fun c => isUnder path c.item.relPath) ≤ 1 := by
  have hapart := h.cards.apart
  change upload.cards.Pairwise _ at hapart
  revert hapart
  induction upload.cards with
  | nil => exact fun _ => Nat.zero_le 1
  | cons c l ih =>
    intro hapart
    obtain ⟨hc, hl⟩ := pairwise_cons.mp hapart
    rw [countP_cons]
    split
    · next hu =>
      rw [countP_eq_zero.mpr]
      intro d hd hud
      obtain ⟨hcd, hdc, hne⟩ := hc d hd
      obtain h | h | h := nested_of_isUnder hu hud
      · exact absurd (hcd.symm.trans h) (by decide)
      · exact absurd (hdc.symm.trans h) (by decide)
      · exact hne h
    · exact ih hl

/-- Who waits on a card. -/
theorem mem_waiting {c : FolderConflict} (hc : c ∈ upload.cards) (hitem : item ∈ upload.items) :
    item ∈ c.waiting ↔
      item.kind = .file ∧ item.state = .conflict ∧ isUnder item.relPath c.item.relPath = true := by
  rw [h.cards.waiting c hc, waitingUnder, mem_filter, decide_eq_true_eq]
  exact and_iff_right hitem

/-- An item is on its own just if no card's folder is over it. -/
theorem count_fileConflicts (hitem : item ∈ upload.items) (hstate : item.state = .conflict) :
    upload.fileConflicts.count item =
      if upload.cards.any fun c => isUnder item.relPath c.item.relPath then 0 else 1 := by
  have hone : upload.items.count item = 1 :=
    count_eq_one_of_mem (Nodup.of_map _ h.ids) hitem
  rw [fileConflicts]
  split
  · next hany =>
    refine count_eq_zero.mpr fun hmem => ?_
    have hnot := (of_decide_eq_true (mem_filter.mp hmem).2).2
    rw [any_map] at hnot
    exact absurd hany (by simpa using hnot)
  · next hany =>
    rw [count_filter, hone]
    refine decide_eq_true ⟨hstate, ?_⟩
    rw [any_map]
    simpa using hany

end IsTree

end UploadView

open UploadView

/-- **Every item in conflict is asked about once**, on its folder's card or its own, but for a folder
under another folder's card, which is on none; no card is for a folder inside another's; and where
all that a card is about are type clashes, Replace is not offered. -/
theorem asked_once (upload : UploadView) (h : upload.IsTree) :
    (∀ item ∈ upload.items, item.state = .conflict →
      (upload.cards.countP fun c => item ∈ c.waiting) + upload.fileConflicts.count item =
        if item.kind = .dir ∧ ∃ c ∈ upload.cards, isUnder item.relPath c.item.relPath then 0
        else 1) ∧
      (upload.cards.Pairwise fun a b => isUnder a.item.relPath b.item.relPath = false ∧
        isUnder b.item.relPath a.item.relPath = false) ∧
      ∀ items : List UploadItemView, items ≠ [] → (∀ item ∈ items, item.typeClash = true) →
        .replace ∉ conflictActions items := by
  refine ⟨fun item hitem hstate => ?_, h.cards.apart.imp fun ha => ⟨ha.1, ha.2.1⟩,
    fun items hne hall => ?_⟩
  · rw [h.count_fileConflicts hitem hstate]
    cases hkind : item.kind with
    | dir =>
      have hnone : (upload.cards.countP fun c => item ∈ c.waiting) = 0 := by
        refine countP_eq_zero.mpr fun c hc hmem => ?_
        have hfile := ((h.mem_waiting hc hitem).mp (of_decide_eq_true hmem)).1
        exact nomatch hkind.symm.trans hfile
      simp [hnone]
    | file =>
      have hcount : (upload.cards.countP fun c => item ∈ c.waiting) =
          upload.cards.countP fun c => isUnder item.relPath c.item.relPath := by
        refine countP_congr fun c hc => ?_
        rw [decide_eq_true_eq, h.mem_waiting hc hitem]
        exact ⟨fun hm => hm.2.2, fun hu => ⟨hkind, hstate, hu⟩⟩
      have hle := h.countP_isUnder item.relPath
      rw [hcount]
      simp only [reduceCtorEq, false_and, if_false]
      split
      · next hany =>
        obtain ⟨c, hc, hu⟩ := any_eq_true.mp hany
        have hpos : 0 < upload.cards.countP fun c => isUnder item.relPath c.item.relPath :=
          countP_pos_iff.mpr ⟨c, hc, hu⟩
        omega
      · next hany =>
        rw [countP_eq_zero.mpr fun c hc hu => hany (any_eq_true.mpr ⟨c, hc, hu⟩)]
  · obtain ⟨item, rest, rfl⟩ := exists_cons_of_ne_nil hne
    have hclash : (item :: rest).all (·.typeClash) = true := all_eq_true.mpr hall
    have hsome : (item :: rest).any (·.typeClash) = true := by simp [hall item mem_cons_self]
    rw [conflictActions, hclash, hsome]
    decide

/-- A folder `p` that exists, with two files in conflict, one of which is a folder there. -/
def mixed : UploadView where
  items :=
    [⟨0, .dir, ['p'], .placed, false⟩, ⟨1, .file, ['p', '/', 'a'], .conflict, true⟩,
      ⟨2, .file, ['p', '/', 'b'], .conflict, false⟩]
  folderConflicts := [⟨0, 2, 2⟩]

theorem asked_once_mixed :
    mixed.cards.map (·.waiting.map (·.itemId)) = [[1, 2]] ∧ mixed.fileConflicts = [] ∧
      mixed.cards.Pairwise fun a b => isUnder a.item.relPath b.item.relPath = false ∧
        isUnder b.item.relPath a.item.relPath = false :=
  ⟨by decide +kernel, by decide +kernel,
    (asked_once mixed ⟨by decide, by decide, by decide⟩).2.1⟩

/-- Its card offers Replace, though one of its files does not take it. -/
theorem replace_offered_to_mixed :
    mixed.IsTree ∧ ∃ c ∈ mixed.cards, (∃ item ∈ c.waiting, item.typeClash = true) ∧
      Action.replace ∈ conflictActions c.waiting :=
  ⟨⟨by decide, by decide, by decide⟩, mixed.cards.get ⟨0, by decide +kernel⟩,
    get_mem _ _, by decide +kernel, by decide +kernel⟩

end Lasterm.Web.Conflicts
