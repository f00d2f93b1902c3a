import Lasterm.Lib.Tally
import Mathlib.Algebra.BigOperators.Group.Multiset.Basic
import Mathlib.Algebra.Order.BigOperators.Group.List
import Mathlib.Data.Multiset.OrderedMonoid
import Mathlib.Data.Rat.Defs
import Mathlib.Tactic.Abel

/-!
# Moving a pane

`usePaneTree.ts`: each tab of the web client has a tree of panes, whose leaves are terminals and
vacant slots.  `movePaneTo` takes the terminal that shows a channel out of the tab it is in,
which leaves a vacant slot, and puts it into a pane of the target tab or beside it.

The tree functions are all about the first leaf that passes a test, in depth-first order, so
they are read off the list of leaves.  The source is taken out before the target is looked up:
where the target is not there, or is the very leaf that was taken out, the terminal is in no
pane afterwards.

## Main results

* `leaves_replaceLeaf` — nothing else changes when a leaf is replaced.
* `move_conserves_iff` — a move loses no terminal exactly if its target is there.
-/

namespace Lasterm.Web

/-- How a split lies. -/
inductive Direction
  | horizontal
  | vertical
deriving DecidableEq

/-- Where on a pane something is dropped. -/
inductive DropZone
  | left
  | right
  | top
  | bottom
  | center
deriving DecidableEq

/-- A tree of panes. -/
inductive PaneNode
  | terminal (channelId paneId : String)
  | vacant (id : String)
  | split (direction : Direction) (ratio : ℚ) (first second : PaneNode)
deriving DecidableEq

/-- Which half of a split a path takes. -/
inductive Turn
  | first
  | second
deriving DecidableEq

namespace PaneNode

/-- `getLeafId`. -/
def getLeafId : PaneNode → Option String
  | terminal _ paneId => some paneId
  | vacant id => some id
  | split .. => none

/-- The channel a leaf shows. -/
def channel? : PaneNode → Option String
  | terminal channelId _ => some channelId
  | vacant _ => none
  | split .. => none

/-- The leaf shows the channel. -/
def shows (channelId : String) (leaf : PaneNode) : Bool := leaf.channel? == some channelId

/-- The leaf is the pane. -/
def isPane (paneId : String) (leaf : PaneNode) : Bool := leaf.getLeafId == some paneId

/-- `findFirstLeafPaneId`. -/
def findFirstLeafPaneId : PaneNode → Option String
  | terminal _ paneId => some paneId
  | vacant _ => none
  | split _ _ first second =>
    match first.findFirstLeafPaneId with
    | some paneId => some paneId
    | none => second.findFirstLeafPaneId

/-- `findChannelByPaneId`. -/
def findChannelByPaneId (paneId : String) : PaneNode → Option String
  | terminal channelId id => if id = paneId then some channelId else none
  | vacant _ => none
  | split _ _ first second =>
    match first.findChannelByPaneId paneId with
    | some channelId => some channelId
    | none => second.findChannelByPaneId paneId

/-- Collect the channels of the terminals in depth-first order. -/
def collectTerminalChannelIds : PaneNode → List String
  | terminal channelId _ => [channelId]
  | vacant _ => []
  | split _ _ first second =>
    first.collectTerminalChannelIds ++ second.collectTerminalChannelIds

/-- The path to the first leaf that passes the test. -/
def findLeafPath (test : PaneNode → Bool) : PaneNode → Option (List Turn)
  | split _ _ first second =>
    match first.findLeafPath test with
    | some path => some (.first :: path)
    | none => (second.findLeafPath test).map (.second :: ·)
  | leaf => if test leaf then some [] else none

/-- `findChannelPath`. -/
def findChannelPath (root : PaneNode) (channelId : String) : Option (List Turn) :=
  root.findLeafPath (shows channelId)

/-- `findNodePathByPaneId`. -/
def findNodePathByPaneId (root : PaneNode) (paneId : String) : Option (List Turn) :=
  root.findLeafPath (isPane paneId)

/-- The tree with its first leaf that passes the test replaced, if there is one. -/
def replaceLeaf (test : PaneNode → Bool) : PaneNode → PaneNode → Option PaneNode
  | split direction ratio first second, replacement =>
    match first.replaceLeaf test replacement with
    | some first' => some (split direction ratio first' second)
    | none => (second.replaceLeaf test replacement).map (split direction ratio first)
  | leaf, replacement => if test leaf then some replacement else none

/-- `replaceTerminalNode`. -/
def replaceTerminalNode (node : PaneNode) (channelId : String) (replacement : PaneNode) :
    Option PaneNode :=
  node.replaceLeaf (shows channelId) replacement

/-- `replaceNodeByPaneId`. -/
def replaceNodeByPaneId (node : PaneNode) (paneId : String) (replacement : PaneNode) :
    Option PaneNode :=
  node.replaceLeaf (isPane paneId) replacement

/-- `getNodeAtPath`. -/
def getNodeAtPath : PaneNode → List Turn → Option PaneNode
  | root, [] => some root
  | split _ _ first second, turn :: rest =>
    match turn with
    | .first => first.getNodeAtPath rest
    | .second => second.getNodeAtPath rest
  | _, _ :: _ => none

/-- `setNodeAtPath`. -/
def setNodeAtPath : PaneNode → List Turn → PaneNode → PaneNode
  | _, [], node => node
  | split direction ratio first second, turn :: rest, node =>
    match turn with
    | .first => split direction ratio (first.setNodeAtPath rest node) second
    | .second => split direction ratio first (second.setNodeAtPath rest node)
  | root, _ :: _, _ => root

end PaneNode

open PaneNode List Option OrderedMap

/-- What `usePaneTree` works on.  A tab without a layout has no entry or `null`. -/
structure State where
  layouts : OrderedMap String (Option PaneNode)
  activePaneIds : OrderedMap String String
  activeTab : Option String

namespace State

/-- `layouts.value[tabId]`, if there is a tree. -/
def layout (s : State) (tabId : String) : Option PaneNode := (s.layouts.get tabId).join

/-- The pane that is active in a tab, after the one that was has lost its terminal. -/
def moveActive (s : State) (tabId : String) (updated : PaneNode) : State :=
  match updated.findFirstLeafPaneId with
  | some newActive => { s with activePaneIds := s.activePaneIds.set tabId newActive }
  | none => { s with activePaneIds := s.activePaneIds.delete tabId }

/-- Vacate a pane in a specific tab; `newId` is what `generateId` gives. -/
def vacatePaneInTab (s : State) (tabId channelId newId : String) : State :=
  match s.layout tabId with
  | none => s
  | some root =>
    match root.replaceTerminalNode channelId (.vacant newId) with
    | none => s
    | some updated =>
      let s' := { s with layouts := s.layouts.set tabId (some updated) }
      match s.activePaneIds.get tabId with
      | none => s'
      | some activePaneId =>
        if root.findChannelByPaneId activePaneId = some channelId then s'.moveActive tabId updated
        else s'

/-- The active tab, if it shows the channel. -/
def activeTabShowing (s : State) (channelId : String) : Option String :=
  s.activeTab.bind fun tabId =>
    (s.layout tabId).bind fun root => (root.findChannelPath channelId).map fun _ => tabId

/-- The tab that shows a channel, the active one before the others. -/
def findTabForChannel (s : State) (channelId : String) : Option String :=
  match s.activeTabShowing channelId with
  | some tabId => some tabId
  | none =>
    (s.layouts.entries.find? fun e =>
      e.2.elim false fun root => (root.findChannelPath channelId).isSome).map Prod.fst

/-- The target pane with the source beside it. -/
def besideTarget (zone : DropZone) (sourceNode existingNode : PaneNode) : PaneNode :=
  let direction := if zone = .left ∨ zone = .right then Direction.vertical else .horizontal
  if zone = .left ∨ zone = .top then .split direction (1 / 2) sourceNode existingNode
  else .split direction (1 / 2) existingNode sourceNode

/-- The target tab's tree with the source put in. -/
def insertSource (targetRoot : PaneNode) (targetPaneId : String) (zone : DropZone)
    (sourceNode : PaneNode) : Option PaneNode :=
  if zone = .center then targetRoot.replaceNodeByPaneId targetPaneId sourceNode
  else
    (targetRoot.findNodePathByPaneId targetPaneId).bind fun targetPath =>
      (targetRoot.getNodeAtPath targetPath).map fun existingNode =>
        targetRoot.setNodeAtPath targetPath (besideTarget zone sourceNode existingNode)

/-- Move a pane from one location to another; `vacantId` and `newPaneId` are what `generateId`
gives, the one for the slot it leaves and the other for the pane it becomes. -/
def movePaneTo (s : State) (sourceChannelId targetPaneId targetTabId : String) (zone : DropZone)
    (vacantId newPaneId : String) : State :=
  match s.findTabForChannel sourceChannelId with
  | none => s
  | some sourceTabKey =>
    let s := s.vacatePaneInTab sourceTabKey sourceChannelId vacantId
    match s.layout targetTabId with
    | none => s
    | some targetRoot =>
      let sourceNode := terminal sourceChannelId newPaneId
      match insertSource targetRoot targetPaneId zone sourceNode with
      | none => s
      | some updated =>
        { s with
          layouts := s.layouts.set targetTabId (some updated)
          activePaneIds := s.activePaneIds.set targetTabId newPaneId }

end State

/-! ### The leaves of a tree -/

namespace PaneNode

/-- The leaves, in depth-first order. -/
def leaves : PaneNode → List PaneNode
  | split _ _ first second => first.leaves ++ second.leaves
  | leaf => [leaf]

theorem collectTerminalChannelIds_eq (node : PaneNode) :
    node.collectTerminalChannelIds = node.leaves.filterMap channel? := by
  induction node with
  | terminal | vacant => rfl
  | split direction ratio first second ihf ihs =>
    rw [collectTerminalChannelIds, leaves, filterMap_append, ihf, ihs]

/-- The leaves before the first that passes the test, that leaf, and those after it. -/
structure FirstLeaf (test : PaneNode → Bool) (node : PaneNode) (pre : List PaneNode)
    (leaf : PaneNode) (post : List PaneNode) : Prop where
  leaves : node.leaves = pre ++ leaf :: post
  before : ∀ l ∈ pre, test l = false
  passes : test leaf = true

section Tree

variable {test : PaneNode → Bool} {pre post : List PaneNode} {leaf node node' : PaneNode}
  {direction : Direction} {ratio : ℚ} {first second : PaneNode}

theorem FirstLeaf.find? (h : FirstLeaf test node pre leaf post) :
    node.leaves.find? test = some leaf := by
  rw [h.leaves, find?_append, find?_eq_none.mpr fun l hl => by simp [h.before l hl]]
  simp [h.passes]

theorem FirstLeaf.split_first (h : FirstLeaf test first pre leaf post) :
    FirstLeaf test (split direction ratio first second) pre leaf (post ++ second.leaves) where
  leaves := by rw [PaneNode.leaves, h.leaves, append_assoc, cons_append]
  before := h.before
  passes := h.passes

theorem FirstLeaf.split_second (hnone : ∀ l ∈ first.leaves, test l = false)
    (h : FirstLeaf test second pre leaf post) :
    FirstLeaf test (split direction ratio first second) (first.leaves ++ pre) leaf post where
  leaves := by rw [PaneNode.leaves, h.leaves, append_assoc]
  before l hl := (mem_append.mp hl).elim (hnone l) (h.before l)
  passes := h.passes

variable {replacement : PaneNode}

theorem replaceLeaf_eq_none
    (h : node.replaceLeaf test replacement = none) : ∀ l ∈ node.leaves, test l = false := by
  induction node with
  | terminal | vacant =>
    intro l hl
    obtain rfl := mem_singleton.mp hl
    by_contra htest
    exact nomatch h.symm.trans (if_pos (Bool.of_not_eq_false htest))
  | split direction ratio first second ihf ihs =>
    rw [replaceLeaf] at h
    cases hfirst : first.replaceLeaf test replacement with
    | some first' =>
      rw [hfirst] at h
      cases h
    | none =>
      rw [hfirst] at h
      intro l hl
      exact (mem_append.mp hl).elim (ihf hfirst l) (ihs (map_eq_none_iff.mp h) l)

/-- **Replacing a leaf**: nothing else changes. -/
theorem leaves_replaceLeaf (h : node.replaceLeaf test replacement = some node') :
    ∃ pre leaf post, FirstLeaf test node pre leaf post ∧
      node'.leaves = pre ++ replacement.leaves ++ post := by
  induction node generalizing node' with
  | terminal | vacant =>
    obtain ⟨htest, ⟨rfl⟩⟩ := ite_none_right_eq_some.mp h
    exact ⟨[], _, [], ⟨rfl, nofun, htest⟩, by simp⟩
  | split direction ratio first second ihf ihs =>
    rw [replaceLeaf] at h
    cases hfirst : first.replaceLeaf test replacement with
    | some first' =>
      rw [hfirst] at h
      cases h
      obtain ⟨pre, leaf, post, hleaf, hleaves⟩ := ihf hfirst
      refine ⟨pre, leaf, post ++ second.leaves, hleaf.split_first, ?_⟩
      rw [leaves, hleaves, append_assoc]
    | none =>
      rw [hfirst] at h
      obtain ⟨second', hsecond, rfl⟩ := map_eq_some_iff.mp h
      obtain ⟨pre, leaf, post, hleaf, hleaves⟩ := ihs hsecond
      refine ⟨first.leaves ++ pre, leaf, post, .split_second (replaceLeaf_eq_none hfirst) hleaf, ?_⟩
      rw [leaves, hleaves]
      simp

theorem replaceLeaf_eq_map (test : PaneNode → Bool) (node replacement : PaneNode) :
    node.replaceLeaf test replacement =
      (node.findLeafPath test).map fun path => node.setNodeAtPath path replacement := by
  induction node with
  | terminal channelId paneId =>
    by_cases htest : test (terminal channelId paneId) = true <;>
      simp [replaceLeaf, findLeafPath, setNodeAtPath, htest]
  | vacant id =>
    by_cases htest : test (vacant id) = true <;>
      simp [replaceLeaf, findLeafPath, setNodeAtPath, htest]
  | split direction ratio first second ihf ihs =>
    rw [replaceLeaf, findLeafPath, ihf]
    cases first.findLeafPath test with
    | some path => rfl
    | none =>
      rw [Option.map_none, ihs, Option.map_map, Option.map_map]
      rfl

theorem getNodeAtPath_findLeafPath {path : List Turn} (h : node.findLeafPath test = some path) :
    node.getNodeAtPath path = node.leaves.find? test := by
  induction node generalizing path with
  | terminal | vacant =>
    obtain ⟨htest, ⟨rfl⟩⟩ := ite_none_right_eq_some.mp h
    simp [getNodeAtPath, leaves, htest]
  | split direction ratio first second ihf ihs =>
    rw [findLeafPath] at h
    rw [leaves, find?_append]
    cases hfirst : first.findLeafPath test with
    | some path' =>
      rw [hfirst] at h
      cases h
      have hreplace : first.replaceLeaf test first = some (first.setNodeAtPath path' first) := by
        rw [replaceLeaf_eq_map, hfirst]
        rfl
      obtain ⟨pre, leaf, post, hleaf, -⟩ := leaves_replaceLeaf hreplace
      rw [getNodeAtPath, ihf hfirst, hleaf.find?]
      rfl
    | none =>
      rw [hfirst] at h
      obtain ⟨path', hsecond, rfl⟩ := map_eq_some_iff.mp h
      have hnone : first.leaves.find? test = none := by
        have hreplace : first.replaceLeaf test first = none := by
          rw [replaceLeaf_eq_map, hfirst]
          rfl
        refine find?_eq_none.mpr fun l hl => ?_
        simp [replaceLeaf_eq_none hreplace l hl]
      rw [getNodeAtPath, ihs hsecond, hnone]
      rfl

theorem findLeafPath_eq_none_iff (test : PaneNode → Bool) (node : PaneNode) :
    node.findLeafPath test = none ↔ node.leaves.find? test = none := by
  have hmap := replaceLeaf_eq_map test node node
  cases hpath : node.findLeafPath test with
  | some path =>
    rw [hpath, map_some] at hmap
    obtain ⟨pre, leaf, post, hleaf, -⟩ := leaves_replaceLeaf hmap
    rw [hleaf.find?]
    exact iff_of_false nofun nofun
  | none =>
    rw [hpath, map_none] at hmap
    refine iff_of_true rfl (find?_eq_none.mpr fun l hl => ?_)
    simp [replaceLeaf_eq_none hmap l hl]

/-! ### The channels of a tree -/

/-- The channels a tree shows. -/
def channels (node : PaneNode) : Multiset String := ↑node.collectTerminalChannelIds

/-- The channel a leaf shows, if any. -/
def own (leaf : PaneNode) : Multiset String := ↑leaf.channel?.toList

/-- The channels of a list of leaves. -/
def channelsOf (ls : List PaneNode) : Multiset String := ↑(ls.filterMap channel?)

theorem channels_eq (node : PaneNode) : node.channels = channelsOf node.leaves := by
  rw [channels, collectTerminalChannelIds_eq, channelsOf]

theorem channelsOf_append (l l' : List PaneNode) :
    channelsOf (l ++ l') = channelsOf l + channelsOf l' := by
  rw [channelsOf, filterMap_append, ← Multiset.coe_add]
  rfl

theorem channelsOf_cons (leaf : PaneNode) (l : List PaneNode) :
    channelsOf (leaf :: l) = leaf.own + channelsOf l := by
  unfold channelsOf own
  cases h : leaf.channel? with
  | none | some => simp [h]

theorem channels_replaceLeaf (h : node.replaceLeaf test replacement = some node') :
    ∃ leaf, node.leaves.find? test = some leaf ∧
      node'.channels + leaf.own = node.channels + replacement.channels := by
  obtain ⟨pre, leaf, post, hleaf, hleaves⟩ := leaves_replaceLeaf h
  refine ⟨leaf, hleaf.find?, ?_⟩
  rw [channels_eq, hleaves, channels_eq node, hleaf.leaves, channels_eq replacement,
    channelsOf_append, channelsOf_append, channelsOf_append, channelsOf_cons]
  abel

end Tree

end PaneNode

namespace State

/-! ### What a move keeps -/

/-- The channels shown, over all tabs. -/
def channels (s : State) : Multiset String :=
  (s.layouts.entries.map fun e => e.2.elim 0 PaneNode.channels).sum

/-- The leaves of the target tab other than the one the source is taken from. -/
def targetLeaves (s : State) (sourceChannelId targetTabId : String) : List PaneNode :=
  (s.layout targetTabId).elim [] fun root =>
    if s.findTabForChannel sourceChannelId = some targetTabId then
      root.leaves.eraseP (shows sourceChannelId)
    else root.leaves

/-- The leaf a move goes to: the target pane, unless the source is taken from it. -/
def targetLeaf (s : State) (sourceChannelId targetPaneId targetTabId : String) : Option PaneNode :=
  (s.targetLeaves sourceChannelId targetTabId).find? (isPane targetPaneId)

/-- The channel a move puts out of sight: the target's own, on a drop on its centre. -/
def displaced (zone : DropZone) (leaf : PaneNode) : Multiset String :=
  if zone = .center then leaf.own else 0

/-- What a move promises: all layouts are as they were; or the source's channel is in exactly one
leaf, which is in the target tab, and the channels shown are those that were, but for the
target's own on a drop on its centre. -/
def Conserves (s : State) (sourceChannelId targetPaneId targetTabId : String) (zone : DropZone)
    (s' : State) : Prop :=
  s'.layouts = s.layouts ∨
    (s'.channels +
        (s.targetLeaf sourceChannelId targetPaneId targetTabId).elim 0 (displaced zone) =
          s.channels ∧
      s'.channels.count sourceChannelId = 1 ∧
      ∃ root, s'.layout targetTabId = some root ∧ root.channels.count sourceChannelId = 1)

/-- When it keeps the promise: the channel is shown nowhere; or the target is there, and the
channel is shown in one leaf, or in one more on whose centre the drop is. -/
def Movable (s : State) (sourceChannelId targetPaneId targetTabId : String) (zone : DropZone) :
    Prop :=
  s.findTabForChannel sourceChannelId = none ∨
    ∃ leaf, s.targetLeaf sourceChannelId targetPaneId targetTabId = some leaf ∧
      s.channels.count sourceChannelId = 1 + (displaced zone leaf).count sourceChannelId

/-- `generateId` gives an id that no leaf has, nor the target pane. -/
def Fresh (s : State) (targetPaneId id : String) : Prop :=
  id ≠ targetPaneId ∧
    ∀ tabId root, s.layout tabId = some root → ∀ leaf ∈ root.leaves, leaf.getLeafId ≠ some id

/-! ### Putting the source in -/

theorem channels_besideTarget (zone : DropZone) (source existing : PaneNode) :
    (besideTarget zone source existing).channels = source.channels + existing.channels := by
  unfold besideTarget
  dsimp only
  split
  · rfl
  · exact add_comm existing.channels source.channels

theorem channels_leaf {test : PaneNode → Bool} {root leaf : PaneNode}
    (h : root.leaves.find? test = some leaf) : leaf.channels = leaf.own := by
  have hleaf : ∀ node : PaneNode, leaf ∈ node.leaves → leaf.leaves = [leaf] := by
    intro node
    induction node with
    | terminal | vacant =>
      intro hmem
      obtain rfl := mem_singleton.mp hmem
      rfl
    | split direction ratio first second ihf ihs =>
      exact fun hmem => (mem_append.mp hmem).elim ihf ihs
  rw [channels_eq, hleaf root (mem_of_find?_eq_some h), channelsOf_cons]
  exact add_zero leaf.own

variable {root root' source : PaneNode} {src pane tab newId : String} {zone : DropZone}

/-- Putting the source in replaces the target leaf, by the source or by both beside each other. -/
theorem insertSource_eq_some (h : insertSource root pane zone source = some root') :
    ∃ leaf, root.leaves.find? (isPane pane) = some leaf ∧
      root.replaceLeaf (isPane pane)
        (if zone = .center then source else besideTarget zone source leaf) = some root' := by
  unfold insertSource at h
  by_cases hzone : zone = .center
  · rw [if_pos hzone] at h
    obtain ⟨leaf, hleaf, -⟩ := channels_replaceLeaf h
    refine ⟨leaf, hleaf, ?_⟩
    rw [if_pos hzone]
    exact h
  · rw [if_neg hzone] at h
    obtain ⟨path, hpath, h⟩ := bind_eq_some_iff.mp h
    obtain ⟨leaf, hleaf, rfl⟩ := map_eq_some_iff.mp h
    refine ⟨leaf, (getNodeAtPath_findLeafPath hpath).symm.trans hleaf, ?_⟩
    rw [if_neg hzone, replaceLeaf_eq_map,
      show root.findLeafPath (isPane pane) = some path from hpath]
    rfl

theorem channels_insertSource
    (h : insertSource root pane zone (.terminal src newId) = some root') :
    ∃ leaf, root.leaves.find? (isPane pane) = some leaf ∧
      root'.channels + displaced zone leaf = root.channels + {src} := by
  obtain ⟨leaf, hleaf, hreplace⟩ := insertSource_eq_some h
  obtain ⟨first, hfirst, hchannels⟩ := channels_replaceLeaf hreplace
  obtain ⟨rfl⟩ := hleaf.symm.trans hfirst
  refine ⟨leaf, hleaf, ?_⟩
  unfold displaced
  by_cases hzone : zone = .center
  · rw [if_pos hzone] at hchannels ⊢
    exact hchannels
  · rw [if_neg hzone, channels_besideTarget, channels_leaf hleaf, ← add_assoc] at hchannels
    rw [if_neg hzone, add_zero]
    exact add_right_cancel hchannels

theorem insertSource_eq_none_iff (source : PaneNode) :
    insertSource root pane zone source = none ↔ root.leaves.find? (isPane pane) = none := by
  have hpath := findLeafPath_eq_none_iff (isPane pane) root
  unfold insertSource
  by_cases hzone : zone = .center
  · rw [if_pos hzone, replaceNodeByPaneId, replaceLeaf_eq_map, map_eq_none_iff, hpath]
  · rw [if_neg hzone, ← hpath, findNodePathByPaneId]
    cases hfound : root.findLeafPath (isPane pane) with
    | none => exact iff_of_true rfl rfl
    | some path =>
      refine iff_of_false (fun hnone => ?_) nofun
      rw [bind_some, map_eq_none_iff, getNodeAtPath_findLeafPath hfound] at hnone
      exact nomatch hfound.symm.trans (hpath.mpr hnone)

theorem mem_leaves_insertSource {leaf : PaneNode}
    (h : insertSource root pane zone source = some root') (hmem : leaf ∈ root.leaves)
    (hne : isPane pane leaf = false) : leaf ∈ root'.leaves := by
  obtain ⟨target, -, hreplace⟩ := insertSource_eq_some h
  obtain ⟨pre, first, post, hfirst, hleaves⟩ := leaves_replaceLeaf hreplace
  rw [hfirst.leaves] at hmem
  rw [hleaves]
  rcases mem_append.mp hmem with hpre | hrest
  · simp [hpre]
  · rcases mem_cons.mp hrest with rfl | hpost
    · exact nomatch hne.symm.trans hfirst.passes
    · simp [hpost]

theorem mem_channels_insertSource
    (h : insertSource root pane zone (.terminal src newId) = some root') : src ∈ root'.channels := by
  obtain ⟨target, -, hreplace⟩ := insertSource_eq_some h
  obtain ⟨pre, first, post, -, hleaves⟩ := leaves_replaceLeaf hreplace
  have hsource : src ∈ (if zone = .center then terminal src newId
      else besideTarget zone (.terminal src newId) target).channels := by
    split
    · exact Multiset.mem_singleton_self src
    · rw [channels_besideTarget]
      exact Multiset.mem_add.mpr (.inl (Multiset.mem_singleton_self src))
  rw [channels_eq] at hsource ⊢
  rw [hleaves, channelsOf_append, channelsOf_append]
  exact Multiset.mem_add.mpr (.inl (Multiset.mem_add.mpr (.inr hsource)))

/-! ### Taking the source out -/

variable {s : State} {vacantId : String}

theorem layout_of_findTabForChannel (h : s.findTabForChannel src = some tab) :
    ∃ root, s.layout tab = some root ∧ root.findLeafPath (shows src) ≠ none := by
  unfold findTabForChannel at h
  cases hactive : s.activeTabShowing src with
  | some tabId =>
    rw [hactive] at h
    cases h
    obtain ⟨tabId', -, hlayout⟩ := bind_eq_some_iff.mp hactive
    obtain ⟨root, hroot, hpath⟩ := bind_eq_some_iff.mp hlayout
    obtain ⟨path, hfound, rfl⟩ := map_eq_some_iff.mp hpath
    have hfound : root.findLeafPath (shows src) = some path := hfound
    exact ⟨root, hroot, by rw [hfound]; exact nofun⟩
  | none =>
    rw [hactive] at h
    obtain ⟨⟨tabId, tree⟩, hentry, rfl⟩ := map_eq_some_iff.mp h
    have hmem := mem_of_find?_eq_some hentry
    have hshows := find?_some hentry
    cases tree with
    | none => cases hshows
    | some root =>
      have hget := (s.layouts.get_eq_some_iff tabId (some root)).mpr hmem
      refine ⟨root, by rw [layout, hget]; rfl, fun hnone => ?_⟩
      have hshows : (root.findLeafPath (shows src)).isSome = true := hshows
      rw [hnone] at hshows
      cases hshows

theorem get_layouts_of_layout (h : s.layout tab = some root) :
    s.layouts.get tab = some (some root) :=
  join_eq_some_iff.mp h

theorem layout_set (s : State) (tab tab' : String) (root : PaneNode) (ids : OrderedMap String String) :
    layout { s with layouts := s.layouts.set tab (some root), activePaneIds := ids } tab' =
      if tab' = tab then some root else s.layout tab' := by
  unfold layout
  rw [get_set]
  split <;> rfl

theorem channels_set (h : s.layout tab = some root) (root' : PaneNode)
    (ids : OrderedMap String String) :
    channels { s with layouts := s.layouts.set tab (some root'), activePaneIds := ids } +
      root.channels = s.channels + root'.channels :=
  sum_set (f := fun tree : Option PaneNode => tree.elim 0 PaneNode.channels)
    (get_layouts_of_layout h) (some root')

/-- **Taking the source out**: its leaf becomes a vacant slot. -/
theorem vacatePaneInTab_eq (vacantId : String) (hlayout : s.layout tab = some root)
    (hshows : root.findLeafPath (shows src) ≠ none) :
    ∃ root' ids,
      s.vacatePaneInTab tab src vacantId =
        { s with layouts := s.layouts.set tab (some root'), activePaneIds := ids } ∧
      root.replaceLeaf (shows src) (.vacant vacantId) = some root' := by
  obtain ⟨path, hpath⟩ := ne_none_iff_exists'.mp hshows
  have hreplace : root.replaceLeaf (shows src) (.vacant vacantId) =
      some (root.setNodeAtPath path (.vacant vacantId)) := by
    rw [replaceLeaf_eq_map, hpath]
    rfl
  generalize root.setNodeAtPath path (.vacant vacantId) = root' at hreplace
  unfold vacatePaneInTab
  rw [hlayout]
  dsimp only
  rw [show root.replaceTerminalNode src (.vacant vacantId) = some root' from hreplace]
  cases s.activePaneIds.get tab with
  | none => exact ⟨root', s.activePaneIds, rfl, hreplace⟩
  | some activePaneId =>
    dsimp only
    split
    · unfold moveActive
      cases root'.findFirstLeafPaneId with
      | some newActive => exact ⟨root', s.activePaneIds.set tab newActive, rfl, hreplace⟩
      | none => exact ⟨root', s.activePaneIds.delete tab, rfl, hreplace⟩
    · exact ⟨root', s.activePaneIds, rfl, hreplace⟩

theorem vacated (h : root.replaceLeaf (shows src) (.vacant vacantId) = some root')
    (hfresh : vacantId ≠ pane) :
    root'.channels + {src} = root.channels ∧ .vacant vacantId ∈ root'.leaves ∧
      root'.leaves.find? (isPane pane) = (root.leaves.eraseP (shows src)).find? (isPane pane) := by
  obtain ⟨pre, leaf, post, hleaf, hleaves⟩ := leaves_replaceLeaf h
  have hnot : isPane pane (.vacant vacantId) = false := by
    simpa [isPane, getLeafId] using hfresh
  refine ⟨?_, by rw [hleaves]; simp [leaves], ?_⟩
  · have hown : leaf.own = {src} := by
      have hsrc : leaf.channel? = some src := by simpa [shows] using hleaf.passes
      rw [own, hsrc]
      rfl
    rw [channels_eq, hleaves, channels_eq root, hleaf.leaves,
      channelsOf_append, channelsOf_append, channelsOf_append,
      channelsOf_cons, hown]
    have hnone : channelsOf (vacant vacantId).leaves = 0 := rfl
    rw [hnone]
    abel
  · have herase : root.leaves.eraseP (shows src) = pre ++ post := by
      rw [hleaf.leaves, eraseP_append_right _ fun l hl => by simp [hleaf.before l hl],
        eraseP_cons_of_pos hleaf.passes]
    have hskip : ((vacant vacantId).leaves ++ post).find? (isPane pane) =
        post.find? (isPane pane) := by
      change (vacant vacantId :: post).find? (isPane pane) = _
      rw [find?_cons, hnot]
    rw [herase, hleaves, append_assoc, find?_append, hskip, ← find?_append]

/-! ### The move -/

theorem vacated_state (htab : s.findTabForChannel src = some tab) (hfresh : s.Fresh pane vacantId)
    (target : String) :
    ∃ s₁, s.vacatePaneInTab tab src vacantId = s₁ ∧
      s₁.channels + {src} = s.channels ∧
      ((s₁.layout target).elim none fun root => root.leaves.find? (isPane pane)) =
        s.targetLeaf src pane target ∧
      ∃ root', s₁.layout tab = some root' ∧ .vacant vacantId ∈ root'.leaves := by
  obtain ⟨root, hlayout, hshows⟩ := layout_of_findTabForChannel htab
  obtain ⟨root', ids, hs₁, hreplace⟩ := vacatePaneInTab_eq vacantId hlayout hshows
  obtain ⟨hchannels, hmem, hfind⟩ := vacated hreplace hfresh.1
  refine ⟨_, hs₁, ?_, ?_, root', by rw [layout_set, if_pos rfl], hmem⟩
  · have hset := channels_set hlayout root' ids
    rw [← hchannels, ← add_assoc, add_right_comm] at hset
    exact add_right_cancel hset
  · rw [layout_set]
    unfold targetLeaf targetLeaves
    by_cases htarget : target = tab
    · subst htarget
      rw [if_pos rfl, hlayout, elim_some, elim_some, if_pos htab]
      exact hfind
    · rw [if_neg htarget]
      cases s.layout target with
      | none => rfl
      | some troot =>
        have hother : s.findTabForChannel src ≠ some target := fun h =>
          htarget (some.inj (h.symm.trans htab))
        rw [elim_some, elim_some, if_neg hother]

theorem layouts_ne {s' : State} (hfresh : s.Fresh pane vacantId) (hlayout : s'.layout tab = some root)
    (hmem : .vacant vacantId ∈ root.leaves) : s'.layouts ≠ s.layouts := by
  intro heq
  have hbefore : s.layout tab = some root := by
    rw [layout, ← heq]
    exact hlayout
  exact hfresh.2 tab root hbefore _ hmem rfl

theorem moved_layouts_ne {s₁ : State} {updated : PaneNode} {target : String}
    {ids : OrderedMap String String} (hfresh : s.Fresh pane vacantId)
    (hroot' : s₁.layout tab = some root') (hvacant : .vacant vacantId ∈ root'.leaves)
    (hroot : s₁.layout target = some root)
    (hinsert : insertSource root pane zone source = some updated) :
    ({ s₁ with layouts := s₁.layouts.set target (some updated), activePaneIds := ids } : State).layouts
      ≠ s.layouts := by
  by_cases htarget : tab = target
  · subst htarget
    obtain ⟨rfl⟩ := hroot'.symm.trans hroot
    have hnot : isPane pane (.vacant vacantId) = false := by
      simpa [isPane, getLeafId] using hfresh.1
    exact layouts_ne hfresh (by rw [layout_set, if_pos rfl])
      (mem_leaves_insertSource hinsert hvacant hnot)
  · exact layouts_ne hfresh (by rw [layout_set, if_neg htarget]; exact hroot') hvacant

theorem channels_le (h : s.layout tab = some root) : root.channels ≤ s.channels := by
  have hmem := (s.layouts.get_eq_some_iff tab (some root)).mp (get_layouts_of_layout h)
  exact le_sum_of_mem (mem_map_of_mem (f := fun e => e.2.elim 0 PaneNode.channels) hmem)

/-- **A move loses no terminal exactly if its target is there**, with the channel shown in one
leaf.  The ids `generateId` gives are new. -/
theorem move_conserves_iff (s : State) (sourceChannelId targetPaneId targetTabId : String)
    (zone : DropZone) (vacantId newPaneId : String) (hfresh : s.Fresh targetPaneId vacantId) :
    s.Conserves sourceChannelId targetPaneId targetTabId zone
        (s.movePaneTo sourceChannelId targetPaneId targetTabId zone vacantId newPaneId) ↔
      s.Movable sourceChannelId targetPaneId targetTabId zone := by
  unfold movePaneTo
  cases htab : s.findTabForChannel sourceChannelId with
  | none => exact iff_of_true (.inl rfl) (.inl htab)
  | some tab =>
    obtain ⟨s₁, hs₁, hchannels, htarget, root', hroot', hvacant⟩ :=
      vacated_state htab hfresh targetTabId
    have hmovable : s.Movable sourceChannelId targetPaneId targetTabId zone ↔
        ∃ leaf, s.targetLeaf sourceChannelId targetPaneId targetTabId = some leaf ∧
          s.channels.count sourceChannelId =
            1 + (displaced zone leaf).count sourceChannelId := by
      unfold Movable
      rw [htab]
      exact or_iff_right nofun
    rw [hmovable]
    dsimp only
    rw [hs₁]
    -- Where the target is not there, the source was taken out and is put nowhere.
    have hlost : s.targetLeaf sourceChannelId targetPaneId targetTabId = none →
        (s.Conserves sourceChannelId targetPaneId targetTabId zone s₁ ↔
          ∃ leaf, s.targetLeaf sourceChannelId targetPaneId targetTabId = some leaf ∧
            s.channels.count sourceChannelId =
              1 + (displaced zone leaf).count sourceChannelId) := by
      intro hnone
      refine iff_of_false ?_ ?_
      · rintro (hsame | ⟨hsum, -, -⟩)
        · exact layouts_ne hfresh hroot' hvacant hsame
        · rw [hnone, ← hchannels] at hsum
          have hcard := congrArg Multiset.card hsum
          simp at hcard
      · rintro ⟨leaf, hleaf, -⟩
        exact nomatch hnone.symm.trans hleaf
    cases hroot : s₁.layout targetTabId with
    | none =>
      rw [hroot] at htarget
      exact hlost htarget.symm
    | some root =>
      rw [hroot, elim_some] at htarget
      dsimp only
      cases hinsert : insertSource root targetPaneId zone (.terminal sourceChannelId newPaneId) with
      | none => exact hlost (htarget.symm.trans ((insertSource_eq_none_iff _).mp hinsert))
      | some updated =>
        obtain ⟨leaf, hleaf, hupdated⟩ := channels_insertSource hinsert
        have hset := channels_set hroot updated (s₁.activePaneIds.set targetTabId newPaneId)
        have hleaf : s.targetLeaf sourceChannelId targetPaneId targetTabId = some leaf :=
          htarget.symm.trans hleaf
        set s₂ : State := { s₁ with
          layouts := s₁.layouts.set targetTabId (some updated)
          activePaneIds := s₁.activePaneIds.set targetTabId newPaneId } with hs₂
        have hsum : s₂.channels + displaced zone leaf = s.channels := by
          have hall : s₂.channels + displaced zone leaf + root.channels =
              s₁.channels + {sourceChannelId} + root.channels := by
            rw [add_right_comm, hset, add_assoc, hupdated]
            abel
          rw [add_right_cancel hall, hchannels]
        have hlayout : s₂.layout targetTabId = some updated := by
          rw [hs₂, layout_set, if_pos rfl]
        have hcount := congrArg (Multiset.count sourceChannelId) hsum
        rw [Multiset.count_add] at hcount
        have hne : s₂.layouts ≠ s.layouts := moved_layouts_ne hfresh hroot' hvacant hroot hinsert
        constructor
        · rintro (hsame | ⟨-, hone, -⟩)
          · exact absurd hsame hne
          · refine ⟨leaf, hleaf, ?_⟩
            rw [← hcount, hone]
        · rintro ⟨leaf', hleaf', hone⟩
          obtain ⟨rfl⟩ := hleaf.symm.trans hleaf'
          have hsource : s₂.channels.count sourceChannelId = 1 := by omega
          refine .inr ⟨by rw [hleaf]; exact hsum, hsource, updated, hlayout, ?_⟩
          have hle := Multiset.count_le_of_le sourceChannelId (channels_le hlayout)
          have hpos := Multiset.count_pos.mpr (mem_channels_insertSource hinsert)
          omega

/-- Two tabs: a terminal in the first, and another beside a vacant slot in the second. -/
def twoTabs : State where
  layouts := (empty.set "t1" (some (.terminal "c1" "p1"))).set "t2"
    (some (.split .vertical (1 / 2) (.terminal "c2" "p2") (.vacant "v1")))
  activePaneIds := (empty.set "t1" "p1").set "t2" "p2"
  activeTab := some "t1"

theorem twoTabs_fresh {pane : String} (h : "v2" ≠ pane) : twoTabs.Fresh pane "v2" := by
  refine ⟨h, fun tabId root hlayout leaf hleaf => ?_⟩
  have hget := (twoTabs.layouts.get_eq_some_iff tabId (some root)).mp
    (get_layouts_of_layout hlayout)
  have hall : ∀ e ∈ twoTabs.layouts.entries, ∀ root ∈ e.2, ∀ leaf ∈ root.leaves,
      leaf.getLeafId ≠ some "v2" := by
    decide +kernel
  exact hall (tabId, some root) hget root rfl leaf hleaf

theorem move_conserves_center :
    twoTabs.Conserves "c1" "p2" "t2" .center (twoTabs.movePaneTo "c1" "p2" "t2" .center "v2" "p3") := by
  refine (move_conserves_iff twoTabs "c1" "p2" "t2" .center "v2" "p3"
    (twoTabs_fresh (by decide))).mpr (.inr ⟨.terminal "c2" "p2", ?_, ?_⟩)
  · decide +kernel
  · decide +kernel

/-- **A move to a pane that is not there loses the terminal.** -/
theorem move_loses :
    ¬twoTabs.Conserves "c1" "gone" "t2" .center
        (twoTabs.movePaneTo "c1" "gone" "t2" .center "v2" "p3") ∧
      "c1" ∉ (twoTabs.movePaneTo "c1" "gone" "t2" .center "v2" "p3").channels := by
  have hlost : (twoTabs.movePaneTo "c1" "gone" "t2" .center "v2" "p3").channels.count "c1" = 0 := by
    decide +kernel
  refine ⟨?_, Multiset.count_eq_zero.mp hlost⟩
  rintro (hsame | ⟨-, hone, -⟩)
  · have hchanged : (twoTabs.movePaneTo "c1" "gone" "t2" .center "v2" "p3").layouts.entries ≠
        twoTabs.layouts.entries := by
      decide +kernel
    exact hchanged (congrArg entries hsame)
  · exact nomatch hlost.symm.trans hone

end State

end Lasterm.Web
