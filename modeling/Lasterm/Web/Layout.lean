import Lasterm.Lib.Run
import Lasterm.Web.PaneTree
import Mathlib.Algebra.Order.Ring.Unbundled.Rat

/-!
# The tabs and panes of a window

`useLayout.ts` puts `usePaneTree.ts` and `useTabManager.ts` together over four shared values: the
tabs, the index of the active one, a tree of panes for each tab, and the pane that has the focus
in each tab.  Every change of them is saved in the browser's storage, unless the storage refuses
it, and a window that is loaded again starts from what was saved last.

The operations are those of the two composables, together with the three of `App.vue` that put a
check before one of them.  The ids they need are given with them, since `generateId` draws them at
random.

## Main definitions

* `Layout`, `Op`, `Layout.perform` — the four values and the operations.
* `Window` — a window with what is saved of it.

## Main results

* `Window.invariant` — what every operation keeps holds of a window and of what is saved.
-/

namespace Lasterm.Web

open Transition Option List

namespace PaneNode

/-- The number of leaves: `countLeaves`, and `countPanes` as it is exported. -/
def countLeaves : PaneNode → ℕ
  | split _ _ first second => first.countLeaves + second.countLeaves
  | _ => 1

/-- The node is this vacant pane. -/
def isVacant (vacantId : String) : PaneNode → Bool
  | vacant id => id == vacantId
  | _ => false

/-- `findVacantPath`. -/
def findVacantPath (root : PaneNode) (vacantId : String) : Option (List Turn) :=
  root.findLeafPath (isVacant vacantId)

/-- A terminal goes on under another id. -/
def replaceInTree (oldId newId : String) : PaneNode → PaneNode
  | terminal channelId paneId => terminal (if channelId = oldId then newId else channelId) paneId
  | vacant id => vacant id
  | split direction ratio first second =>
    split direction ratio (first.replaceInTree oldId newId) (second.replaceInTree oldId newId)

/-- The tree in which the sibling of the node at the path takes the place of their split. -/
def collapse (root : PaneNode) (path : List Turn) : Option PaneNode :=
  path.getLast?.bind fun lastTurn =>
    match root.getNodeAtPath path.dropLast with
    | some (split _ _ first second) =>
      let sibling := if lastTurn = .first then second else first
      some (root.setNodeAtPath path.dropLast sibling)
    | _ => none

/-- Every terminal made a vacant slot; `newId n` is the id of the `n`th slot made. -/
def vacateNode (newId : ℕ → String) : ℕ → PaneNode → PaneNode × ℕ
  | n, terminal .. => (vacant (newId n), n + 1)
  | n, vacant id => (vacant id, n)
  | n, split direction ratio first second =>
    let (first', n) := first.vacateNode newId n
    let (second', n) := second.vacateNode newId n
    (split direction ratio first' second', n)

end PaneNode

open PaneNode

/-! ### The leaves of the trees -/

namespace PaneNode

variable {test : PaneNode → Bool} {node node' : PaneNode} {path : List Turn}
  {direction : Direction} {ratio : ℚ} {first second : PaneNode}

theorem countLeaves_eq (node : PaneNode) : node.countLeaves = node.leaves.length := by
  induction node with
  | terminal | vacant => rfl
  | split direction ratio first second ihf ihs =>
    rw [countLeaves, leaves, length_append, ihf, ihs]

theorem collapse_cons (h : path ≠ []) (turn : Turn) :
    (split direction ratio first second).collapse (turn :: path) =
      match turn with
      | .first => (first.collapse path).map (split direction ratio · second)
      | .second => (second.collapse path).map (split direction ratio first ·) := by
  obtain ⟨next, path, rfl⟩ := exists_cons_of_ne_nil h
  unfold collapse
  rw [getLast?_cons_cons, dropLast_cons_cons]
  cases (next :: path).getLast? with
  | none => cases turn <;> rfl
  | some lastTurn =>
    rw [bind_some]
    cases turn
    all_goals
      rw [bind_some, getNodeAtPath]
      dsimp only
      split
      · rw [setNodeAtPath]
        rfl
      · rfl

theorem leaves_of_findLeafPath_nil (h : node.findLeafPath test = some []) :
    node.leaves = [node] ∧ test node = true := by
  cases node with
  | terminal | vacant => exact ⟨rfl, (ite_none_right_eq_some.mp h).1⟩
  | split direction ratio first second =>
    rw [findLeafPath] at h
    cases hfirst : first.findLeafPath test with
    | some path =>
      rw [hfirst] at h
      cases h
    | none =>
      rw [hfirst] at h
      obtain ⟨path, -, hpath⟩ := map_eq_some_iff.mp h
      cases hpath

theorem not_passes_of_findLeafPath (h : node.findLeafPath test = none) :
    ∀ l ∈ node.leaves, test l = false := by
  intro l hl
  have hnone := (findLeafPath_eq_none_iff test node).mp h
  simpa using find?_eq_none.mp hnone l hl

/-- **Giving a leaf's space to its sibling** takes that leaf out and no other. -/
theorem leaves_collapse (h : node.findLeafPath test = some path) (hpath : path ≠ []) :
    ∃ node' pre leaf post, node.collapse path = some node' ∧
      FirstLeaf test node pre leaf post ∧ node'.leaves = pre ++ post := by
  induction node generalizing path with
  | terminal | vacant =>
    obtain ⟨-, h⟩ := ite_none_right_eq_some.mp h
    exact absurd (some.inj h).symm hpath
  | split direction ratio first second ihf ihs =>
    rw [findLeafPath] at h
    cases hfirst : first.findLeafPath test with
    | some path' =>
      rw [hfirst] at h
      cases h
      by_cases hnil : path' = []
      · -- the leaf is the first half itself, whose place the second takes
        subst hnil
        obtain ⟨hleaf, htest⟩ := leaves_of_findLeafPath_nil hfirst
        have hfound : FirstLeaf test first [] first [] := ⟨hleaf, by simp, htest⟩
        exact ⟨second, [], first, [] ++ second.leaves, rfl, hfound.split_first, rfl⟩
      · obtain ⟨node', pre, leaf, post, hcollapse, hleaf, hleaves⟩ := ihf hfirst hnil
        refine ⟨split direction ratio node' second, pre, leaf, post ++ second.leaves, ?_,
          hleaf.split_first, ?_⟩
        · rw [collapse_cons hnil, hcollapse]
          rfl
        · rw [leaves, hleaves, append_assoc]
    | none =>
      rw [hfirst] at h
      obtain ⟨path', hsecond, rfl⟩ := map_eq_some_iff.mp h
      have hnone := not_passes_of_findLeafPath hfirst
      by_cases hnil : path' = []
      · subst hnil
        obtain ⟨hleaf, htest⟩ := leaves_of_findLeafPath_nil hsecond
        have hfound : FirstLeaf test second [] second [] := ⟨hleaf, by simp, htest⟩
        refine ⟨first, first.leaves ++ [], second, [], rfl, .split_second hnone hfound, ?_⟩
        simp
      · obtain ⟨node', pre, leaf, post, hcollapse, hleaf, hleaves⟩ := ihs hsecond hnil
        refine ⟨split direction ratio first node', first.leaves ++ pre, leaf, post, ?_,
          .split_second hnone hleaf, ?_⟩
        · rw [collapse_cons hnil, hcollapse]
          rfl
        · rw [leaves, hleaves, append_assoc]

end PaneNode

/-! ### Operations on panes -/

/-- What comes of a split. -/
inductive SplitResult
  | split
  | atLimit
  | notFound

/-- The bounds a divider can be dragged to. -/
def clampSplitRatio (ratio : ℚ) : ℚ := min (9 / 10) (max (1 / 10) ratio)

namespace State

/-- The active tab with its tree. -/
def activeLayout (s : State) : Option (String × PaneNode) :=
  s.activeTab.bind fun tabId => (s.layout tabId).map (tabId, ·)

/-- `layouts.value = { ...layouts.value, [tabId]: root }`. -/
def putLayout (s : State) (tabId : String) (root : PaneNode) : State :=
  { s with layouts := s.layouts.set tabId (some root) }

/-- The channel of the pane that has the focus in a tab, or of its first terminal. -/
def getActiveChannelId (s : State) (tabId : String) : Option String :=
  (s.layout tabId).bind fun root =>
    match (s.activePaneIds.get tabId).bind root.findChannelByPaneId with
    | some channelId => some channelId
    | none => root.findChannelByPaneId (root.findFirstLeafPaneId.getD "")

/-- The tab's active pane. -/
def setActivePaneId (s : State) (tabId paneId : String) : State :=
  { s with activePaneIds := s.activePaneIds.set tabId paneId }

/-- The active tab's layout. -/
def setLayout (s : State) (node : Option PaneNode) : State :=
  match s.activeTab with
  | none => s
  | some tabId => { s with layouts := s.layouts.set tabId node }

/-- Split the pane that shows `channelId`, the new half left vacant, unless the tab is at `limit`. -/
def splitPane (s : State) (channelId : String) (direction : Direction) (limit : ℕ)
    (newId : String) : State × SplitResult :=
  match s.activeLayout with
  | none => (s, .notFound)
  | some (tabId, root) =>
    if limit ≤ root.countLeaves then (s, .atLimit)
    else
      match root.findChannelPath channelId with
      | none => (s, .notFound)
      | some path =>
        match root.getNodeAtPath path with
        | none => (s, .notFound)
        | some existingNode =>
          let splitNode := .split direction (1 / 2) existingNode (.vacant newId)
          (s.putLayout tabId (root.setNodeAtPath path splitNode), .split)

/-- Give the space of a leaf of the active tab to its sibling. -/
def collapseActive (s : State) (find : PaneNode → Option (List Turn)) : State :=
  match s.activeLayout with
  | none => s
  | some (tabId, root) =>
    match (find root).bind root.collapse with
    | none => s
    | some newRoot => s.putLayout tabId newRoot

/-- `unsplitPane`: the terminal's pane closes. -/
def unsplitPane (s : State) (channelId : String) : State :=
  s.collapseActive (·.findChannelPath channelId)

/-- Take a vacant slot away.  A tab's only pane stays. -/
def rearrangeVacant (s : State) (vacantId : String) : State :=
  s.collapseActive (·.findVacantPath vacantId)

/-- `updateRatio`: of a split of the active tab. -/
def updateRatio (s : State) (splitNodePath : List Turn) (ratio : ℚ) : State :=
  match s.activeLayout with
  | none => s
  | some (tabId, root) =>
    match root.getNodeAtPath splitNodePath with
    | some (.split direction _ first second) =>
      let updated := .split direction (clampSplitRatio ratio) first second
      s.putLayout tabId (root.setNodeAtPath splitNodePath updated)
    | _ => s

/-- `replaceChannelId`, in every tab. -/
def replaceChannelId (s : State) (oldId newId : String) : State :=
  { s with layouts := s.layouts.mapValues (·.map (replaceInTree oldId newId)) }

/-- `vacatePane`, in the active tab. -/
def vacatePane (s : State) (channelId newId : String) : State :=
  match s.activeTab with
  | none => s
  | some tabId => s.vacatePaneInTab tabId channelId newId

/-- `detachPane`. -/
def detachPane (s : State) (channelId newId : String) : State := s.vacatePane channelId newId

/-- The first of the tabs that has the vacant slot, with its tree and the path to the slot. -/
def findVacant (s : State) (vacantId : String) : List String →
    Option (String × PaneNode × List Turn)
  | [] => none
  | tabId :: tabIds =>
    match (s.layout tabId).bind fun root => (root.findVacantPath vacantId).map (root, ·) with
    | some (root, path) => some (tabId, root, path)
    | none => s.findVacant vacantId tabIds

/-- Fill a vacant slot with a channel, of the active tab before the others. -/
def fillVacant (s : State) (tabs : List String) (vacantId channelId newPaneId : String) : State :=
  let tabIds := s.activeTab.toList ++ tabs.filter fun id => some id ≠ s.activeTab
  match s.findVacant vacantId tabIds with
  | none => s
  | some (tabId, root, path) =>
    (s.putLayout tabId (root.setNodeAtPath path (.terminal channelId newPaneId))).setActivePaneId
      tabId newPaneId

/-- Close a terminal's pane: its sibling takes the space; a tab's only pane becomes vacant. -/
def closePane (s : State) (channelId newId : String) : State :=
  match s.findTabForChannel channelId with
  | none => s
  | some tabId =>
    match s.layout tabId with
    | none => s
    | some root =>
      match root.findChannelPath channelId with
      | none => s
      | some [] =>
        { s.putLayout tabId (.vacant newId) with activePaneIds := s.activePaneIds.delete tabId }
      | some path =>
        match root.collapse path with
        | none => s
        | some newRoot =>
          let s' := s.putLayout tabId newRoot
          match s.activePaneIds.get tabId with
          | none => s'
          | some activePaneId =>
            if root.findChannelByPaneId activePaneId = some channelId then
              s'.moveActive tabId newRoot
            else s'

end State

/-! ### Operations on tabs -/

/-- `l[i]` of ECMAScript: a number that is no index has no element. -/
def elementAt {α : Type*} (l : List α) (i : ℤ) : Option α :=
  if 0 ≤ i then l[i.toNat]? else none

/-- `l.slice(start)` of ECMAScript: a negative number counts from the end. -/
def sliceFrom {α : Type*} (l : List α) (start : ℤ) : List α :=
  if 0 ≤ start then l.drop start.toNat else l.drop (l.length - (-start).toNat)

/-- What the bar shows: `[tabs] scope`, the host in view, and the hosts of the channels. -/
structure View where
  perHost : Bool
  activeHostId : Option String
  channelHostMap : OrderedMap String String

/-- The tabs, the active one, the tree of each tab and the pane that has the focus in each. -/
structure Layout where
  tabs : List String
  activeTabIndex : ℕ
  layouts : OrderedMap String (Option PaneNode)
  activePaneIds : OrderedMap String String

namespace Layout

/-- The tab that is shown, if there is one. -/
def activeTab (l : Layout) : Option String := l.tabs[l.activeTabIndex]?

/-- What `usePaneTree` works on. -/
def panes (l : Layout) : State where
  layouts := l.layouts
  activePaneIds := l.activePaneIds
  activeTab := l.activeTab

/-- The layout with its panes as in this state. -/
def withPanes (l : Layout) (s : State) : Layout :=
  { l with layouts := s.layouts, activePaneIds := s.activePaneIds }

/-- `layouts.value[tabId]`, if there is a tree. -/
def layout (l : Layout) (tabId : String) : Option PaneNode := (l.layouts.get tabId).join

/-- A tab put in at a place and made the active one. -/
def insertTab (l : Layout) (idx : ℕ) (tabId : String) (root : PaneNode)
    (activePaneId : Option String) : Layout where
  tabs := l.tabs.insertIdx idx tabId
  activeTabIndex := idx
  layouts := l.layouts.set tabId (some root)
  activePaneIds := activePaneId.elim l.activePaneIds (l.activePaneIds.set tabId ·)

/-- Add a tab where new tabs go, and activate it. -/
def addTab (l : Layout) (afterActive : Bool) (newTabId : String) (root : PaneNode)
    (activePaneId : Option String) : Layout :=
  let idx := if afterActive then min (l.activeTabIndex + 1) l.tabs.length else l.tabs.length
  l.insertTab idx newTabId root activePaneId

/-- Open a tab for a channel, or switch to the one that shows it. -/
def openTab (l : Layout) (afterActive : Bool) (channelId newTabId newPaneId : String) : Layout :=
  match (l.panes.findTabForChannel channelId).bind fun tabId => l.tabs.idxOf? tabId with
  | some existingIdx => { l with activeTabIndex := existingIdx }
  | none => l.addTab afterActive newTabId (.terminal channelId newPaneId) (some newPaneId)

/-- A new tab with a vacant pane. -/
def openVacantTab (l : Layout) (afterActive : Bool) (newTabId newPaneId : String) : Layout :=
  l.addTab afterActive newTabId (.vacant newPaneId) none

/-- `closeTab`. -/
def closeTab (l : Layout) (index : ℤ) : Layout :=
  match elementAt l.tabs index with
  | none => l
  | some tabId =>
    let next := l.tabs.eraseIdx index.toNat
    { tabs := next
      layouts := l.layouts.delete tabId
      activePaneIds := l.activePaneIds.delete tabId
      activeTabIndex :=
        if next.length ≤ l.activeTabIndex then next.length - 1
        else if index.toNat < l.activeTabIndex then l.activeTabIndex - 1
        else l.activeTabIndex }

/-- `setActiveTab`: an index there is. -/
def setActiveTab (l : Layout) (index : ℤ) : Layout :=
  if 0 ≤ index ∧ index < l.tabs.length then { l with activeTabIndex := index.toNat } else l

/-- Reorder a tab from one position to another. -/
def reorderTab (l : Layout) (fromIndex toIndex : ℤ) : Layout :=
  if fromIndex = toIndex then l
  else if fromIndex < 0 ∨ (l.tabs.length : ℤ) ≤ fromIndex then l
  else
    let clampedTo := max 0 (min toIndex (l.tabs.length - 1))
    if fromIndex = clampedTo then l
    else
      match l.tabs[fromIndex.toNat]? with
      | none => l
      | some moved =>
        { l with
          tabs := (l.tabs.eraseIdx fromIndex.toNat).insertIdx clampedTo.toNat moved
          activeTabIndex :=
            if l.activeTabIndex = fromIndex then clampedTo.toNat
            else if fromIndex < l.activeTabIndex ∧ l.activeTabIndex ≤ clampedTo then
              l.activeTabIndex - 1
            else if l.activeTabIndex < fromIndex ∧ clampedTo ≤ l.activeTabIndex then
              l.activeTabIndex + 1
            else l.activeTabIndex }

/-- Every terminal leaves the tab, and a vacant pane stays for each. -/
def vacateAllPanesInTab (l : Layout) (tabId : String) (newId : ℕ → String) : Layout :=
  match l.layout tabId with
  | none => l
  | some root =>
    { l with
      layouts := l.layouts.set tabId (some (root.vacateNode newId 0).1)
      activePaneIds := l.activePaneIds.delete tabId }

/-- Whether a tab belongs on the bar while `hostId` is in view. -/
def tabIsOnHost (l : Layout) (channelHostMap : OrderedMap String String) (hostId tabId : String) :
    Bool :=
  match l.layout tabId with
  | none => true
  | some root =>
    let hosts := root.collectTerminalChannelIds.filterMap channelHostMap.get
    hosts.isEmpty || hosts.contains hostId

/-- The tabs on screen, or `none` when that is all of them. -/
def tabsInView (l : Layout) (view : View) : Option (List String) :=
  if view.perHost then
    view.activeHostId.map fun hostId => l.tabs.filter (l.tabIsOnHost view.channelHostMap hostId)
  else none

/-- The tabs that are not on screen. -/
def outOfView (l : Layout) (view : View) : List String :=
  (l.tabsInView view).elim [] fun inView => l.tabs.filter (· ∉ inView)

/-- The entries of the tabs that are kept, in the order of the tabs; a tab without a tree has
none. -/
def keepLayouts (l : Layout) (keepIds : List String) : OrderedMap String (Option PaneNode) :=
  l.tabs.foldl (fun m tabId =>
    if tabId ∈ keepIds then (l.layout tabId).elim m fun root => m.set tabId (some root) else m) .empty

/-- The active panes of the tabs that stay. -/
def keepPanes (l : Layout) (keepIds : List String) : OrderedMap String String :=
  l.tabs.foldl (fun m tabId =>
    if tabId ∈ keepIds then (l.activePaneIds.get tabId).elim m fun paneId => m.set tabId paneId
    else m) .empty

/-- Close every tab on screen except the one at `keepIndex`. -/
def closeOthers (l : Layout) (view : View) (keepIndex : ℤ) : Layout :=
  match elementAt l.tabs keepIndex with
  | none => l
  | some kept =>
    let keepIds := kept :: l.outOfView view
    let next := l.tabs.filter (· ∈ keepIds)
    { tabs := next
      layouts := l.keepLayouts keepIds
      activePaneIds := l.keepPanes keepIds
      activeTabIndex := (next.idxOf? kept).getD 0 }

/-- Close all tabs to the right of `fromIndex`. -/
def closeToRight (l : Layout) (view : View) (fromIndex : ℤ) : Layout :=
  let inView := l.tabsInView view
  let removed := (sliceFrom l.tabs (fromIndex + 1)).filter fun tabId =>
    inView.elim true (decide <| tabId ∈ ·)
  let next := l.tabs.filter (· ∉ removed)
  let anchorIndex := (elementAt l.tabs fromIndex).bind next.idxOf?
  { tabs := next
    layouts := removed.foldl .delete l.layouts
    activePaneIds := removed.foldl .delete l.activePaneIds
    activeTabIndex := (l.activeTab.bind next.idxOf?).getD (anchorIndex.getD (next.length - 1)) }

/-- Close every tab on screen, but the one that shows the channel given. -/
def closeAll (l : Layout) (view : View) (exceptWelcomeChannelId : Option String) : Layout :=
  let welcomeTabId := exceptWelcomeChannelId.bind l.panes.findTabForChannel
  let keepIds := welcomeTabId.toList ++ l.outOfView view
  let next := l.tabs.filter (· ∈ keepIds)
  { tabs := next
    layouts := l.keepLayouts keepIds
    activePaneIds := l.keepPanes keepIds
    activeTabIndex := (l.activeTab.bind next.idxOf?).getD 0 }

/-- Move a pane out of its tab into a new one. -/
def moveToNewTab (l : Layout) (sourceChannelId : String) (insertAtIndex : ℤ)
    (vacantId newTabId newPaneId : String) : Layout :=
  match l.panes.findTabForChannel sourceChannelId with
  | none => l
  | some sourceTabKey =>
    let l := l.withPanes (l.panes.vacatePaneInTab sourceTabKey sourceChannelId vacantId)
    let idx := (max 0 (min insertAtIndex l.tabs.length)).toNat
    l.insertTab idx newTabId (.terminal sourceChannelId newPaneId) (some newPaneId)

/-! ### Operations of the window -/

/-- Drop a pane on another: beside it only while the target tab has less than four panes. -/
def onDropPane (l : Layout) (sourceChannelId targetPaneId targetTabId : String) (zone : DropZone)
    (vacantId newPaneId : String) : Layout :=
  if zone ≠ .center ∧ (l.layout targetTabId).any (4 ≤ ·.countLeaves) then l
  else l.withPanes
    (l.panes.movePaneTo sourceChannelId targetPaneId targetTabId zone vacantId newPaneId)

/-- Close a vacant slot; a tab that is nothing else is closed. -/
def closeVacantPane (l : Layout) (vacantId : String) : Layout :=
  match l.activeTab with
  | none => l
  | some tabId =>
    if l.layout tabId = some (.vacant vacantId) then
      (l.tabs.idxOf? tabId).elim l fun index => l.closeTab index
    else l.withPanes (l.panes.rearrangeVacant vacantId)

end Layout

/-- What can be done to the tabs and panes of a window. -/
inductive Op
  | openTab (afterActive : Bool) (channelId newTabId newPaneId : String)
  | openVacantTab (afterActive : Bool) (newTabId newPaneId : String)
  | closeTab (index : ℤ)
  | setActiveTab (index : ℤ)
  | reorderTab (fromIndex toIndex : ℤ)
  | vacateAllPanesInTab (tabId : String) (newId : ℕ → String)
  | closeOthers (view : View) (keepIndex : ℤ)
  | closeToRight (view : View) (fromIndex : ℤ)
  | closeAll (view : View) (exceptWelcomeChannelId : Option String)
  | moveToNewTab (sourceChannelId : String) (insertAtIndex : ℤ) (vacantId newTabId newPaneId : String)
  | setActivePaneId (tabId paneId : String)
  | setLayout (node : Option PaneNode)
  | splitPane (channelId : String) (direction : Direction) (newId : String)
  | unsplitPane (channelId : String)
  | updateRatio (splitNodePath : List Turn) (ratio : ℚ)
  | replaceChannelId (oldId newId : String)
  | detachPane (channelId newId : String)
  | closePane (channelId newId : String)
  | fillVacant (vacantId channelId newPaneId : String)
  | closeVacantPane (vacantId : String)
  | dropPane (sourceChannelId targetPaneId targetTabId : String) (zone : DropZone)
      (vacantId newPaneId : String)

/-- What an operation does, `limit` being the most panes the settings allow in a tab. -/
def Layout.perform (limit : ℕ) (l : Layout) : Op → Layout
  | .openTab afterActive channelId newTabId newPaneId =>
    l.openTab afterActive channelId newTabId newPaneId
  | .openVacantTab afterActive newTabId newPaneId => l.openVacantTab afterActive newTabId newPaneId
  | .closeTab index => l.closeTab index
  | .setActiveTab index => l.setActiveTab index
  | .reorderTab fromIndex toIndex => l.reorderTab fromIndex toIndex
  | .vacateAllPanesInTab tabId newId => l.vacateAllPanesInTab tabId newId
  | .closeOthers view keepIndex => l.closeOthers view keepIndex
  | .closeToRight view fromIndex => l.closeToRight view fromIndex
  | .closeAll view exceptWelcomeChannelId => l.closeAll view exceptWelcomeChannelId
  | .moveToNewTab sourceChannelId insertAtIndex vacantId newTabId newPaneId =>
    l.moveToNewTab sourceChannelId insertAtIndex vacantId newTabId newPaneId
  | .setActivePaneId tabId paneId => l.withPanes (l.panes.setActivePaneId tabId paneId)
  | .setLayout node => l.withPanes (l.panes.setLayout node)
  | .splitPane channelId direction newId =>
    l.withPanes (l.panes.splitPane channelId direction limit newId).1
  | .unsplitPane channelId => l.withPanes (l.panes.unsplitPane channelId)
  | .updateRatio splitNodePath ratio => l.withPanes (l.panes.updateRatio splitNodePath ratio)
  | .replaceChannelId oldId newId => l.withPanes (l.panes.replaceChannelId oldId newId)
  | .detachPane channelId newId => l.withPanes (l.panes.detachPane channelId newId)
  | .closePane channelId newId => l.withPanes (l.panes.closePane channelId newId)
  | .fillVacant vacantId channelId newPaneId =>
    l.withPanes (l.panes.fillVacant l.tabs vacantId channelId newPaneId)
  | .closeVacantPane vacantId => l.closeVacantPane vacantId
  | .dropPane sourceChannelId targetPaneId targetTabId zone vacantId newPaneId =>
    l.onDropPane sourceChannelId targetPaneId targetTabId zone vacantId newPaneId

/-- A window, and what is saved of it. -/
structure Window where
  layout : Layout
  saved : Option Layout

/-- No tab is open. -/
def Layout.empty : Layout := ⟨[], 0, .empty, .empty⟩

/-- What can happen to a window. -/
inductive Step
  | perform (op : Op)
  /-- The change is saved; a storage that refuses it is no step. -/
  | save
  | restore

/-- The window after a step. -/
def next (limit : ℕ) (w : Window) : Step → Option Window
  | .perform op => some { w with layout := w.layout.perform limit op }
  | .save => some { w with saved := some w.layout }
  | .restore => some { w with layout := w.saved.getD .empty }

/-- A window that was opened for the first time. -/
def Window.start : Window := ⟨.empty, none⟩

/-- **What every operation keeps holds of a window and of what is saved of it.** -/
theorem Window.invariant {limit : ℕ} {ok : Window → Step → Prop} {P : Layout → Prop}
    (hempty : P .empty)
    (hperform : ∀ w op, P w.layout → ok w (.perform op) → P (w.layout.perform limit op))
    {w₀ w : Window} (h₀ : P w₀.layout) (hsaved : ∀ l ∈ w₀.saved, P l)
    (h : Run (next limit) ok w₀ w) : P w.layout ∧ ∀ l ∈ w.saved, P l := by
  refine h.invariant (I := fun w => P w.layout ∧ ∀ l ∈ w.saved, P l) ⟨h₀, hsaved⟩ ?_
  intro w step w' hw hok hn
  cases step with
  | perform op =>
    cases hn
    exact ⟨hperform w op hw.1 hok, hw.2⟩
  | save =>
    cases hn
    refine ⟨hw.1, fun l hl => ?_⟩
    cases hl
    exact hw.1
  | restore =>
    cases hn
    refine ⟨?_, hw.2⟩
    cases hs : w.saved with
    | none => exact hempty
    | some l => exact hw.2 l hs

end Lasterm.Web
