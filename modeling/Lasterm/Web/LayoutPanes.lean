import Lasterm.Web.Layout

/-!
# The panes of a tab

Two things are meant to hold of a tab whatever is done to it: it has no more panes than the
settings allow, and the pane that has the focus is one of its panes.  Neither always holds.  The
drop of a pane beside another is checked against four, whatever the settings say.  And of the
operations that take a pane away, `unsplitPane` and `rearrangeVacant` leave the focus where it was.

## Main definitions

* `Alters` — what an operation does to one tab: its tree and focused pane before and after.

## Main results

* `alters_perform` — what every operation does to every tab.
* `panes_within`, `active_pane_shown` — the two, where none of these is done.
-/

namespace Lasterm.Web

open Transition PaneNode List Option OrderedMap

namespace PaneNode

/-- The tree has a pane of that id. -/
def HasPane (node : PaneNode) (paneId : String) : Prop :=
  ∃ leaf ∈ node.leaves, leaf.isPane paneId = true

instance (node : PaneNode) (paneId : String) : Decidable (node.HasPane paneId) :=
  inferInstanceAs (Decidable (∃ leaf ∈ node.leaves, _))

variable {test : PaneNode → Bool} {node leaf : PaneNode} {pre post : List PaneNode}
  {paneId channelId : String}

theorem findFirstLeafPaneId_hasPane (h : node.findFirstLeafPaneId = some paneId) :
    node.HasPane paneId := by
  induction node with
  | terminal channelId id =>
    cases h
    exact ⟨_, mem_singleton_self _, by simp [isPane, getLeafId]⟩
  | vacant id => cases h
  | split direction ratio first second ihf ihs =>
    rw [findFirstLeafPaneId] at h
    cases hfirst : first.findFirstLeafPaneId with
    | some id =>
      rw [hfirst] at h
      obtain ⟨leaf, hleaf, hpane⟩ := ihf (hfirst.trans h)
      exact ⟨leaf, mem_append_left _ hleaf, hpane⟩
    | none =>
      rw [hfirst] at h
      obtain ⟨leaf, hleaf, hpane⟩ := ihs h
      exact ⟨leaf, mem_append_right _ hleaf, hpane⟩

theorem findChannelByPaneId_eq (node : PaneNode) (paneId : String) :
    node.findChannelByPaneId paneId =
      (node.leaves.find? fun leaf => leaf.isPane paneId && leaf.channel?.isSome).bind channel? := by
  induction node with
  | terminal channelId id =>
    by_cases hid : id = paneId <;> simp [findChannelByPaneId, leaves, isPane, getLeafId, channel?, hid]
  | vacant id => simp [findChannelByPaneId, leaves, channel?]
  | split direction ratio first second ihf ihs =>
    rw [findChannelByPaneId, leaves, find?_append, ihf]
    cases hfirst : first.leaves.find? fun leaf => leaf.isPane paneId && leaf.channel?.isSome with
    | none => simpa using ihs
    | some leaf =>
      have hpasses := find?_some hfirst
      obtain ⟨c, hc⟩ := isSome_iff_exists.mp (Bool.and_eq_true_iff.mp hpasses).2
      simp [hc]

theorem mem_channels_of_findChannelByPaneId (h : node.findChannelByPaneId paneId = some channelId) :
    channelId ∈ node.collectTerminalChannelIds := by
  rw [findChannelByPaneId_eq] at h
  obtain ⟨leaf, hfind, hchannel⟩ := bind_eq_some_iff.mp h
  rw [collectTerminalChannelIds_eq]
  exact mem_filterMap.mpr ⟨leaf, mem_of_find?_eq_some hfind, hchannel⟩

theorem FirstLeaf.isPane_or_stays {test : PaneNode → Bool} (h : FirstLeaf test node pre leaf post)
    (hpane : node.HasPane paneId) :
    leaf.isPane paneId = true ∨ ∃ l ∈ pre ++ post, l.isPane paneId = true := by
  obtain ⟨l, hl, hid⟩ := hpane
  rw [h.leaves] at hl
  rcases mem_append.mp hl with hpre | hrest
  · exact .inr ⟨l, mem_append_left _ hpre, hid⟩
  rcases mem_cons.mp hrest with rfl | hpost
  · exact .inl hid
  · exact .inr ⟨l, mem_append_right _ hpost, hid⟩

/-- A pane stays when the first leaf of a channel is taken out, if it is not a pane of the
channel: either the leaf has another id, or one before it has the same. -/
theorem FirstLeaf.pane_stays (h : FirstLeaf (shows channelId) node pre leaf post)
    (hpane : node.HasPane paneId) (hother : node.findChannelByPaneId paneId ≠ some channelId) :
    ∃ l ∈ pre ++ post, l.isPane paneId = true := by
  rcases h.isPane_or_stays hpane with hid | hstays
  · -- the first terminal of that id shows another channel, so it comes before
    have hchannel : leaf.channel? = some channelId := by simpa [shows] using h.passes
    rw [findChannelByPaneId_eq, h.leaves, find?_append] at hother
    cases hfind : pre.find? fun leaf => leaf.isPane paneId && leaf.channel?.isSome with
    | some l' =>
      have hpasses := find?_some hfind
      exact ⟨l', mem_append_left _ (mem_of_find?_eq_some hfind),
        (Bool.and_eq_true_iff.mp hpasses).1⟩
    | none =>
      rw [hfind] at hother
      simp [hid, hchannel] at hother
  · exact hstays

theorem leaves_replaceInTree (oldId newId : String) (node : PaneNode) :
    (node.replaceInTree oldId newId).leaves = node.leaves.map (replaceInTree oldId newId) := by
  induction node with
  | terminal | vacant => rfl
  | split direction ratio first second ihf ihs =>
    rw [replaceInTree, leaves, leaves, ihf, ihs, map_append]

theorem isPane_replaceInTree (oldId newId paneId : String) (node : PaneNode) :
    (node.replaceInTree oldId newId).isPane paneId = node.isPane paneId := by
  cases node <;> rfl

theorem length_leaves_vacateNode (newId : ℕ → String) (node : PaneNode) (n : ℕ) :
    (node.vacateNode newId n).1.leaves.length = node.leaves.length := by
  induction node generalizing n with
  | terminal | vacant => rfl
  | split direction ratio first second ihf ihs =>
    simp [vacateNode, leaves, ihf, ihs]

theorem leaves_of_mem (h : leaf ∈ node.leaves) : leaf.leaves = [leaf] := by
  induction node with
  | terminal | vacant =>
    obtain rfl := mem_singleton.mp h
    rfl
  | split direction ratio first second ihf ihs => exact (mem_append.mp h).elim ihf ihs

theorem leaves_setNodeAtPath {path : List Turn} (h : node.findLeafPath test = some path)
    (replacement : PaneNode) :
    ∃ pre leaf post, FirstLeaf test node pre leaf post ∧
      node.getNodeAtPath path = some leaf ∧
      (node.setNodeAtPath path replacement).leaves = pre ++ replacement.leaves ++ post := by
  have hreplace : node.replaceLeaf test replacement = some (node.setNodeAtPath path replacement) := by
    rw [replaceLeaf_eq_map, h]
    rfl
  obtain ⟨pre, leaf, post, hleaf, hleaves⟩ := leaves_replaceLeaf hreplace
  exact ⟨pre, leaf, post, hleaf, (getNodeAtPath_findLeafPath h).trans hleaf.find?, hleaves⟩

theorem leaves_setNodeAtPath_of_leaves {path : List Turn} {sub : PaneNode} (sub' : PaneNode)
    (h : node.getNodeAtPath path = some sub) (hleaves : sub'.leaves = sub.leaves) :
    (node.setNodeAtPath path sub').leaves = node.leaves := by
  induction path generalizing node with
  | nil =>
    rw [getNodeAtPath] at h
    cases h
    rw [setNodeAtPath, hleaves]
  | cons turn path ih =>
    cases node with
    | terminal | vacant => cases h
    | split direction ratio first second =>
      cases turn with
      | first | second => rw [setNodeAtPath, leaves, leaves, ih h]

end PaneNode

/-! ### What an operation does to a tab -/

/-- What an operation can do to the tree and the focus of one tab. -/
inductive Alters (limit : ℕ) (l : Layout) (op : Op) (tab : String) :
    Option PaneNode → Option String → Option PaneNode → Option String → Prop
  | same (tree : Option PaneNode) (focus : Option String) : Alters limit l op tab tree focus tree focus
  | gone (tree : Option PaneNode) (focus : Option String) : Alters limit l op tab tree focus none none
  | opened (tree : Option PaneNode) (focus focus' : Option String) (leaf : PaneNode)
      (hleaf : leaf.leaves = [leaf])
      (hfocus : ∀ p ∈ focus', leaf.isPane p = true ∨
        focus' = focus ∧ ∃ afterActive paneId, op = .openVacantTab afterActive tab paneId) :
      Alters limit l op tab tree focus (some leaf) focus'
  | relabelled (root root' : PaneNode) (focus : Option String)
      (hlen : root'.leaves.length = root.leaves.length)
      (hids : ∀ p, root.HasPane p → root'.HasPane p) :
      Alters limit l op tab (some root) focus (some root') focus
  | split (root root' : PaneNode) (focus : Option String) (hroom : root.leaves.length < limit)
      (hlen : root'.leaves.length = root.leaves.length + 1)
      (hids : ∀ p, root.HasPane p → root'.HasPane p) :
      Alters limit l op tab (some root) focus (some root') focus
  /-- No more panes, and the focus on one of them. -/
  | refocused (root root' : PaneNode) (focus focus' : Option String)
      (hlen : root'.leaves.length ≤ root.leaves.length)
      (hfocus : (∀ p ∈ focus, root.HasPane p) → ∀ p ∈ focus', root'.HasPane p) :
      Alters limit l op tab (some root) focus (some root') focus'
  /-- The tab that is in front without its first leaf that passes the test. -/
  | collapsed (root root' : PaneNode) (focus : Option String) (test : PaneNode → Bool)
      (pre post : List PaneNode) (leaf : PaneNode) (hleaf : FirstLeaf test root pre leaf post)
      (hleaves : root'.leaves = pre ++ post) (hfront : l.activeTab = some tab)
      (hop : (∃ c, op = .unsplitPane c ∧ test = shows c) ∨
        ∃ v, op = .closeVacantPane v ∧ test = isVacant v ∧ l.layout tab ≠ some (.vacant v)) :
      Alters limit l op tab (some root) focus (some root') focus
  | set (tree node : Option PaneNode) (focus : Option String) (hop : op = .setLayout node)
      (hfront : l.activeTab = some tab) : Alters limit l op tab tree focus node focus
  | focused (tree : Option PaneNode) (focus : Option String) (paneId : String)
      (hop : op = .setActivePaneId tab paneId) :
      Alters limit l op tab tree focus tree (some paneId)
  | beside (root root' : PaneNode) (focus : Option String) (src pane : String) (zone : DropZone)
      (vacantId paneId : String) (hop : op = .dropPane src pane tab zone vacantId paneId)
      (hzone : zone ≠ .center) (hroom : root.leaves.length < 4)
      (hlen : root'.leaves.length = root.leaves.length + 1) (hpane : root'.HasPane paneId) :
      Alters limit l op tab (some root) focus (some root') (some paneId)

section Alters

variable {limit : ℕ} {l : Layout} {op : Op} {s s' : State} {root root' : PaneNode}
  {tab tab' channelId paneId newId : String}

/-- What an operation does to the tabs, as the relation says it of each. -/
def AltersAll (limit : ℕ) (l : Layout) (op : Op) (s s' : State) : Prop :=
  ∀ tab, Alters limit l op tab (s.layout tab) (s.activePaneIds.get tab) (s'.layout tab)
    (s'.activePaneIds.get tab)

theorem AltersAll.refl (s : State) : AltersAll limit l op s s := fun _ => .same _ _

theorem layout_putLayout (s : State) (tab tab' : String) (root : PaneNode) :
    (s.putLayout tab root).layout tab' = if tab' = tab then some root else s.layout tab' :=
  s.layout_set tab tab' root s.activePaneIds

theorem AltersAll.put {focus' : OrderedMap String String}
    (hfocus : ∀ t ≠ tab, focus'.get t = s.activePaneIds.get t)
    (hhere : Alters limit l op tab (s.layout tab) (s.activePaneIds.get tab) (some root')
      (focus'.get tab)) :
    AltersAll limit l op s { s.putLayout tab root' with activePaneIds := focus' } := by
  intro t
  have hlayout : State.layout { s.putLayout tab root' with activePaneIds := focus' } t =
      if t = tab then some root' else s.layout t := layout_putLayout s tab t root'
  rw [hlayout]
  by_cases ht : t = tab
  · subst ht
    rw [if_pos rfl]
    exact hhere
  · rw [if_neg ht, hfocus t ht]
    exact .same _ _

theorem AltersAll.putLayout
    (hhere : Alters limit l op tab (s.layout tab) (s.activePaneIds.get tab) (some root')
      (s.activePaneIds.get tab)) :
    AltersAll limit l op s (s.putLayout tab root') :=
  .put (fun _ _ => rfl) hhere

theorem moveActive_eq (s : State) (tab : String) (root : PaneNode) :
    ∃ focus', s.moveActive tab root = { s with activePaneIds := focus' } ∧
      (∀ t ≠ tab, focus'.get t = s.activePaneIds.get t) ∧
      ∀ p ∈ focus'.get tab, root.HasPane p := by
  unfold State.moveActive
  cases hfirst : root.findFirstLeafPaneId with
  | some newActive =>
    refine ⟨_, rfl, fun t ht => get_set_of_ne _ ht _, fun p hp => ?_⟩
    rw [get_set_self] at hp
    cases hp
    exact findFirstLeafPaneId_hasPane hfirst
  | none =>
    refine ⟨_, rfl, fun t ht => get_delete_of_ne _ ht, fun p hp => ?_⟩
    rw [get_delete_self] at hp
    cases hp

theorem AltersAll.takenOut {pre post mid : List PaneNode} {leaf : PaneNode}
    (hroot : s.layout tab = some root) (hleaf : FirstLeaf (shows channelId) root pre leaf post)
    (hleaves : root'.leaves = pre ++ mid ++ post) (hmid : mid.length ≤ 1) :
    AltersAll limit l op s
      (match s.activePaneIds.get tab with
      | none => s.putLayout tab root'
      | some activePaneId =>
        if root.findChannelByPaneId activePaneId = some channelId then
          (s.putLayout tab root').moveActive tab root'
        else s.putLayout tab root') := by
  have hlen : root'.leaves.length ≤ root.leaves.length := by
    rw [hleaves, hleaf.leaves]
    simp only [length_append, length_cons]
    omega
  cases hfocus : s.activePaneIds.get tab with
  | none =>
    refine .putLayout ?_
    rw [hroot, hfocus]
    exact .refocused root root' none none hlen fun _ => nofun
  | some p =>
    dsimp only
    split
    · obtain ⟨focus', heq, hother, hhere⟩ := moveActive_eq (s.putLayout tab root') tab root'
      rw [heq]
      refine .put hother ?_
      rw [hroot]
      exact .refocused root root' _ _ hlen fun _ => hhere
    · next hchannel =>
      refine .putLayout ?_
      rw [hroot, hfocus]
      refine .refocused root root' _ _ hlen fun hbefore q hq => ?_
      cases hq
      obtain ⟨leaf', hmem, hpane⟩ := hleaf.pane_stays (hbefore p rfl) hchannel
      refine ⟨leaf', ?_, hpane⟩
      rw [hleaves]
      rcases mem_append.mp hmem with hpre | hpost
      · exact mem_append_left _ (mem_append_left _ hpre)
      · exact mem_append_right _ hpost

theorem vacatePaneInTab_alters (s : State) (tab channelId newId : String) :
    AltersAll limit l op s (s.vacatePaneInTab tab channelId newId) := by
  unfold State.vacatePaneInTab
  cases hroot : s.layout tab with
  | none => exact .refl s
  | some root =>
    dsimp only
    cases hreplace : root.replaceTerminalNode channelId (.vacant newId) with
    | none => exact .refl s
    | some updated =>
      obtain ⟨pre, leaf, post, hleaf, hleaves⟩ := leaves_replaceLeaf hreplace
      exact .takenOut hroot hleaf hleaves le_rfl

theorem closePane_alters (s : State) (channelId newId : String) :
    AltersAll limit l op s (s.closePane channelId newId) := by
  unfold State.closePane
  cases s.findTabForChannel channelId with
  | none => exact .refl s
  | some tab =>
    dsimp only
    cases hroot : s.layout tab with
    | none => exact .refl s
    | some root =>
      dsimp only
      split
      · exact .refl s
      · -- a tab's only pane becomes a vacant slot without the focus
        next hpath =>
        obtain ⟨hleaves, -⟩ := leaves_of_findLeafPath_nil hpath
        refine .put (fun t ht => get_delete_of_ne _ ht) ?_
        rw [hroot, get_delete_self]
        refine .refocused root _ _ _ ?_ fun _ => nofun
        rw [hleaves]
        exact le_rfl
      · next path hne hpath =>
        obtain ⟨newRoot, pre, leaf, post, hcollapse, hleaf, hleaves⟩ := leaves_collapse hpath hne
        rw [hcollapse]
        have hleaves : newRoot.leaves = pre ++ [] ++ post := by rw [hleaves, append_nil]
        exact .takenOut hroot hleaf hleaves (Nat.zero_le 1)

theorem activeLayout_eq_some (h : s.activeLayout = some (tab, root)) :
    s.activeTab = some tab ∧ s.layout tab = some root := by
  obtain ⟨tabId, htab, hroot⟩ := bind_eq_some_iff.mp h
  obtain ⟨node, hnode, heq⟩ := map_eq_some_iff.mp hroot
  obtain ⟨rfl, rfl⟩ := Prod.mk.inj heq
  exact ⟨htab, hnode⟩

theorem collapseActive_alters {test : PaneNode → Bool}
    (hop : (∃ c, op = .unsplitPane c ∧ test = shows c) ∨
      ∃ v, op = .closeVacantPane v ∧ test = isVacant v ∧
        ∀ tab, l.activeTab = some tab → l.layout tab ≠ some (.vacant v)) :
    AltersAll limit l op l.panes (l.panes.collapseActive (·.findLeafPath test)) := by
  unfold State.collapseActive
  cases hactive : l.panes.activeLayout with
  | none => exact .refl _
  | some pair =>
    obtain ⟨tab, root⟩ := pair
    obtain ⟨htab, hroot⟩ := activeLayout_eq_some hactive
    dsimp only
    cases hpath : root.findLeafPath test with
    | none => exact .refl _
    | some path =>
      rw [bind_some]
      by_cases hnil : path = []
      · subst hnil
        exact .refl _
      · obtain ⟨newRoot, pre, leaf, post, hcollapse, hleaf, hleaves⟩ := leaves_collapse hpath hnil
        rw [hcollapse]
        refine .putLayout ?_
        rw [hroot]
        refine .collapsed root newRoot _ test pre post leaf hleaf hleaves htab ?_
        exact hop.imp id fun ⟨v, hop, htest, hvacant⟩ => ⟨v, hop, htest, hvacant tab htab⟩

theorem splitPane_alters (s : State) (channelId : String) (direction : Direction) (newId : String) :
    AltersAll limit l op s (s.splitPane channelId direction limit newId).1 := by
  unfold State.splitPane
  cases hactive : s.activeLayout with
  | none => exact .refl _
  | some pair =>
    obtain ⟨tab, root⟩ := pair
    obtain ⟨-, hroot⟩ := activeLayout_eq_some hactive
    dsimp only
    split
    · exact .refl _
    · next hlimit =>
      rw [countLeaves_eq] at hlimit
      cases hpath : root.findChannelPath channelId with
      | none => exact .refl _
      | some path =>
        dsimp only
        obtain ⟨pre, leaf, post, hleaf, hnode, hleaves⟩ := leaves_setNodeAtPath hpath
          (.split direction (1 / 2) (root.getNodeAtPath path |>.getD root) (.vacant newId))
        have hmem : leaf ∈ root.leaves := by
          rw [hleaf.leaves]
          simp
        rw [hnode, getD_some, leaves, leaves_of_mem hmem] at hleaves
        rw [hnode]
        refine .putLayout ?_
        rw [hroot]
        refine .split root _ _ (by omega) ?_ fun p hp => ?_
        · rw [hleaves, hleaf.leaves]
          simp [leaves]
          omega
        · obtain ⟨leaf', hmem', hpane⟩ := hp
          refine ⟨leaf', ?_, hpane⟩
          rw [hleaf.leaves] at hmem'
          rw [hleaves]
          simp only [mem_append, mem_cons] at hmem' ⊢
          tauto

theorem updateRatio_alters (s : State) (path : List Turn) (ratio : ℚ) :
    AltersAll limit l op s (s.updateRatio path ratio) := by
  unfold State.updateRatio
  cases hactive : s.activeLayout with
  | none => exact .refl _
  | some pair =>
    obtain ⟨tab, root⟩ := pair
    obtain ⟨-, hroot⟩ := activeLayout_eq_some hactive
    dsimp only
    split
    · next direction _ first second hnode =>
      have hleaves := leaves_setNodeAtPath_of_leaves
        (.split direction (clampSplitRatio ratio) first second) hnode rfl
      refine .putLayout ?_
      rw [hroot]
      refine .relabelled root _ _ (by rw [hleaves]) fun p hp => ?_
      unfold HasPane
      rw [hleaves]
      exact hp
    · exact .refl _

theorem replaceChannelId_alters (s : State) (oldId newId : String) :
    AltersAll limit l op s (s.replaceChannelId oldId newId) := by
  intro tab
  have hlayout : (s.replaceChannelId oldId newId).layout tab =
      (s.layout tab).map (replaceInTree oldId newId) := by
    unfold State.layout State.replaceChannelId
    rw [get_mapValues]
    cases s.layouts.get tab with
    | none | some => rfl
  rw [hlayout]
  cases s.layout tab with
  | none => exact .same _ _
  | some root =>
    have hleaves := leaves_replaceInTree oldId newId root
    refine .relabelled root _ _ (by rw [hleaves, length_map]) ?_
    rintro p ⟨leaf, hmem, hpane⟩
    refine ⟨leaf.replaceInTree oldId newId, ?_, ?_⟩
    · rw [hleaves]
      exact mem_map_of_mem hmem
    · rw [isPane_replaceInTree]
      exact hpane

theorem findVacant_eq_some {vacantId : String} {tabs : List String} {path : List Turn}
    (h : s.findVacant vacantId tabs = some (tab, root, path)) :
    s.layout tab = some root ∧ root.findVacantPath vacantId = some path := by
  induction tabs with
  | nil => cases h
  | cons tabId tabs ih =>
    rw [State.findVacant] at h
    split at h
    · next root' path' hfound =>
      obtain ⟨rfl, rfl, rfl⟩ : tabId = tab ∧ root' = root ∧ path' = path := by simpa using h
      obtain ⟨node, hnode, hpath⟩ := bind_eq_some_iff.mp hfound
      obtain ⟨p, hp, heq⟩ := map_eq_some_iff.mp hpath
      obtain ⟨rfl, rfl⟩ := Prod.mk.inj heq
      exact ⟨hnode, hp⟩
    · exact ih h

theorem fillVacant_alters (s : State) (tabs : List String) (vacantId channelId newPaneId : String) :
    AltersAll limit l op s (s.fillVacant tabs vacantId channelId newPaneId) := by
  unfold State.fillVacant
  dsimp only
  split
  · exact .refl s
  · next tab root path hfound =>
    obtain ⟨hroot, hpath⟩ := findVacant_eq_some hfound
    obtain ⟨pre, leaf, post, hleaf, -, hleaves⟩ :=
      leaves_setNodeAtPath hpath (.terminal channelId newPaneId)
    refine .put (fun t ht => get_set_of_ne _ ht _) ?_
    rw [hroot, get_set_self]
    refine .refocused root _ _ _ ?_ fun _ p hp => ?_
    · rw [hleaves, hleaf.leaves]
      simp [leaves]
    · cases hp
      refine ⟨.terminal channelId newPaneId, ?_, by simp [isPane, getLeafId]⟩
      rw [hleaves]
      simp [leaves]

theorem length_vacatePaneInTab (htab : s.findTabForChannel channelId = some tab) (newId : String)
    (h : (s.vacatePaneInTab tab channelId newId).layout tab' = some root') :
    ∃ root, s.layout tab' = some root ∧ root'.leaves.length = root.leaves.length := by
  obtain ⟨root, hroot, hshows⟩ := State.layout_of_findTabForChannel htab
  obtain ⟨root₁, ids, heq, hreplace⟩ := State.vacatePaneInTab_eq newId hroot hshows
  rw [heq, State.layout_set] at h
  by_cases htab' : tab' = tab
  · subst htab'
    rw [if_pos rfl] at h
    cases h
    obtain ⟨pre, leaf, post, hleaf, hleaves⟩ := leaves_replaceLeaf hreplace
    refine ⟨root, hroot, ?_⟩
    rw [hleaves, hleaf.leaves]
    simp [leaves]
  · rw [if_neg htab'] at h
    exact ⟨root', h, rfl⟩

/-- A tree the source was put into: it has the new pane, and a leaf more unless the source took
the target's place. -/
theorem leaves_insertSource {pane : String} {zone : DropZone}
    (h : State.insertSource root pane zone (.terminal channelId paneId) = some root') :
    root'.HasPane paneId ∧
      root'.leaves.length = root.leaves.length + if zone = .center then 0 else 1 := by
  obtain ⟨target, htarget, hreplace⟩ := State.insertSource_eq_some h
  obtain ⟨pre, leaf, post, hleaf, hleaves⟩ := leaves_replaceLeaf hreplace
  have hlen := congrArg length hleaves
  rw [hleaf.leaves]
  by_cases hzone : zone = .center
  · rw [if_pos hzone] at hleaves hlen ⊢
    refine ⟨⟨.terminal channelId paneId, ?_, by simp [isPane, getLeafId]⟩, ?_⟩
    · rw [hleaves]
      simp [leaves]
    · rw [hlen]
      simp [leaves]
  · have hone := leaves_of_mem (mem_of_find?_eq_some htarget)
    have hboth : (State.besideTarget zone (.terminal channelId paneId) target).leaves =
        [.terminal channelId paneId, target] ∨
        (State.besideTarget zone (.terminal channelId paneId) target).leaves =
          [target, .terminal channelId paneId] := by
      unfold State.besideTarget
      dsimp only
      split
      · refine .inl ?_
        rw [leaves, hone]
        rfl
      · refine .inr ?_
        rw [leaves, hone]
        rfl
    rw [if_neg hzone] at hleaves hlen ⊢
    refine ⟨⟨.terminal channelId paneId, ?_, by simp [isPane, getLeafId]⟩, ?_⟩
    · rw [hleaves]
      rcases hboth with hboth | hboth <;> simp [hboth]
    · rw [hlen]
      rcases hboth with hboth | hboth <;> simp [hboth] <;> omega

theorem onDropPane_alters (l : Layout) (src pane target : String) (zone : DropZone)
    (vacantId newPaneId : String) :
    AltersAll limit l (.dropPane src pane target zone vacantId newPaneId) l.panes
      (l.onDropPane src pane target zone vacantId newPaneId).panes := by
  unfold Layout.onDropPane
  split
  · exact .refl _
  next hguard =>
  have hpanes : ∀ s : State, (l.withPanes s).panes = { s with activeTab := l.activeTab } :=
    fun _ => rfl
  rw [hpanes]
  unfold State.movePaneTo
  cases htab : l.panes.findTabForChannel src with
  | none => exact .refl _
  | some tab =>
    have hvacate : AltersAll limit l (.dropPane src pane target zone vacantId newPaneId) l.panes
        (l.panes.vacatePaneInTab tab src vacantId) := vacatePaneInTab_alters l.panes tab src vacantId
    have hlength : ∀ root', (l.panes.vacatePaneInTab tab src vacantId).layout target = some root' →
        ∃ root, l.panes.layout target = some root ∧ root'.leaves.length = root.leaves.length :=
      fun _ => length_vacatePaneInTab htab vacantId
    dsimp only
    generalize l.panes.vacatePaneInTab tab src vacantId = s₁ at hvacate hlength ⊢
    cases hroot₁ : s₁.layout target with
    | none => exact hvacate
    | some root₁ =>
      dsimp only
      cases hinsert : State.insertSource root₁ pane zone (.terminal src newPaneId) with
      | none => exact hvacate
      | some updated =>
        obtain ⟨root, hroot, hlen₁⟩ := hlength root₁ hroot₁
        obtain ⟨hpane, hlen⟩ := leaves_insertSource hinsert
        intro t
        have hlayout : State.layout { s₁ with
            layouts := s₁.layouts.set target (some updated)
            activePaneIds := s₁.activePaneIds.set target newPaneId
            activeTab := l.activeTab } t = if t = target then some updated else s₁.layout t :=
          s₁.layout_set target t updated s₁.activePaneIds
        rw [hlayout]
        rw [get_set]
        by_cases ht : t = target
        · subst ht
          rw [if_pos rfl, if_pos rfl, hroot]
          by_cases hzone : zone = .center
          · rw [if_pos hzone] at hlen
            refine .refocused root updated _ _ (by omega) fun _ p hp => ?_
            cases hp
            exact hpane
          · rw [if_neg hzone] at hlen
            refine .beside root updated _ src pane zone vacantId newPaneId rfl hzone ?_ (by omega) hpane
            have hroot : l.layout t = some root := hroot
            rw [hroot] at hguard
            have hless : ¬4 ≤ root.countLeaves := by simpa [hzone] using hguard
            rw [countLeaves_eq] at hless
            omega
        · rw [if_neg ht, if_neg ht]
          exact hvacate t

/-! ### Tabs that come and go -/

theorem get_foldl_keep {ν : Type*} (keepIds : List String) (f : String → Option ν)
    (tabs : List String) (m : OrderedMap String ν) (tab : String) :
    (tabs.foldl (fun m tabId =>
        if tabId ∈ keepIds then (f tabId).elim m fun v => m.set tabId v else m) m).get tab =
      if tab ∈ tabs ∧ tab ∈ keepIds then (f tab).or (m.get tab) else m.get tab := by
  induction tabs generalizing m with
  | nil => simp
  | cons a tabs ih =>
    have hstep : (if a ∈ keepIds then (f a).elim m fun v => m.set a v else m).get tab =
        if tab = a ∧ tab ∈ keepIds then (f tab).or (m.get tab) else m.get tab := by
      by_cases ha : a ∈ keepIds
      · rw [if_pos ha]
        by_cases hta : tab = a
        · subst hta
          cases f tab <;> simp [ha]
        · cases f a <;> simp [hta, get_set_of_ne]
      · rw [if_neg ha]
        by_cases hta : tab = a
        · subst hta
          simp [ha]
        · simp [hta]
    rw [foldl_cons, ih, hstep]
    by_cases hkeep : tab ∈ keepIds
    · by_cases hta : tab = a
      · subst hta
        simp only [hkeep, and_true, if_true, mem_cons, true_or]
        cases f tab <;> simp
      · simp [hta, hkeep]
    · simp [hkeep]

theorem get_keepLayouts (l : Layout) (keepIds : List String) (tab : String) :
    (l.keepLayouts keepIds).get tab =
      if tab ∈ l.tabs ∧ tab ∈ keepIds then (l.layout tab).map some else none := by
  have hfold := get_foldl_keep keepIds (fun tabId => (l.layout tabId).map some) l.tabs .empty tab
  rw [get_empty, or_none] at hfold
  rw [← hfold, Layout.keepLayouts]
  congr 2
  funext m tabId
  cases l.layout tabId <;> rfl

theorem get_keepPanes (l : Layout) (keepIds : List String) (tab : String) :
    (l.keepPanes keepIds).get tab =
      if tab ∈ l.tabs ∧ tab ∈ keepIds then l.activePaneIds.get tab else none := by
  have hfold := get_foldl_keep keepIds l.activePaneIds.get l.tabs .empty tab
  rw [get_empty, or_none] at hfold
  exact hfold

theorem keep_alters (l : Layout) (keepIds : List String) (activeTab : Option String) :
    AltersAll limit l op l.panes ⟨l.keepLayouts keepIds, l.keepPanes keepIds, activeTab⟩ := by
  intro tab
  unfold State.layout
  rw [get_keepLayouts, get_keepPanes]
  by_cases hkeep : tab ∈ l.tabs ∧ tab ∈ keepIds
  · rw [if_pos hkeep, if_pos hkeep]
    have hjoin : ((l.layout tab).map some).join = l.layout tab := by
      cases l.layout tab <;> rfl
    rw [hjoin]
    exact .same _ _
  · rw [if_neg hkeep, if_neg hkeep]
    exact .gone _ _

theorem delete_alters (l : Layout) (removed : List String) (activeTab : Option String) :
    AltersAll limit l op l.panes
      ⟨removed.foldl .delete l.layouts, removed.foldl .delete l.activePaneIds, activeTab⟩ := by
  intro tab
  unfold State.layout
  rw [get_foldl_delete, get_foldl_delete]
  by_cases htab : tab ∈ removed
  · rw [if_pos htab, if_pos htab]
    exact .gone _ _
  · rw [if_neg htab, if_neg htab]
    exact .same _ _

theorem closeTab_alters (l : Layout) (index : ℤ) :
    AltersAll limit l op l.panes (l.closeTab index).panes := by
  unfold Layout.closeTab
  cases elementAt l.tabs index with
  | none => exact .refl _
  | some tabId => exact delete_alters l [tabId] _

theorem insertTab_alters (hs : AltersAll limit l op l.panes s) (idx : ℕ)
    (newTabId channelId paneId : String) :
    AltersAll limit l op l.panes
      ((l.withPanes s).insertTab idx newTabId (.terminal channelId paneId) (some paneId)).panes := by
  intro tab
  have hlayout : ((l.withPanes s).insertTab idx newTabId (.terminal channelId paneId)
      (some paneId)).panes.layout tab =
        if tab = newTabId then some (.terminal channelId paneId) else s.layout tab :=
    s.layout_set newTabId tab (.terminal channelId paneId) s.activePaneIds
  have hactive : ((l.withPanes s).insertTab idx newTabId (.terminal channelId paneId)
      (some paneId)).panes.activePaneIds.get tab =
        if tab = newTabId then some paneId else s.activePaneIds.get tab :=
    s.activePaneIds.get_set newTabId tab paneId
  rw [hlayout, hactive]
  by_cases htab : tab = newTabId
  · rw [if_pos htab, if_pos htab]
    refine .opened _ _ _ _ rfl fun p hp => .inl ?_
    cases hp
    simp [isPane, getLeafId]
  · rw [if_neg htab, if_neg htab]
    exact hs tab

theorem openVacantTab_alters (l : Layout) (afterActive : Bool) (newTabId newPaneId : String) :
    AltersAll limit l (.openVacantTab afterActive newTabId newPaneId) l.panes
      (l.openVacantTab afterActive newTabId newPaneId).panes := by
  intro tab
  have hlayout : (l.openVacantTab afterActive newTabId newPaneId).panes.layout tab =
      if tab = newTabId then some (.vacant newPaneId) else l.panes.layout tab :=
    l.panes.layout_set newTabId tab (.vacant newPaneId) l.activePaneIds
  rw [hlayout]
  by_cases htab : tab = newTabId
  · subst htab
    rw [if_pos rfl]
    exact .opened _ _ _ _ rfl fun p _ => .inr ⟨rfl, afterActive, newPaneId, rfl⟩
  · rw [if_neg htab]
    exact .same _ _

/-! ### Every operation -/

/-- **What every operation does to every tab.** -/
theorem alters_perform (limit : ℕ) (l : Layout) (op : Op) :
    AltersAll limit l op l.panes (l.perform limit op).panes := by
  cases op with
  | openTab afterActive channelId newTabId newPaneId =>
    change AltersAll _ _ _ _ (l.openTab afterActive channelId newTabId newPaneId).panes
    unfold Layout.openTab
    split
    · exact AltersAll.refl l.panes
    · exact insertTab_alters (.refl l.panes) _ newTabId channelId newPaneId
  | openVacantTab afterActive newTabId newPaneId =>
    exact openVacantTab_alters l afterActive newTabId newPaneId
  | closeTab index => exact closeTab_alters l index
  | setActiveTab index =>
    change AltersAll _ _ _ _ (l.setActiveTab index).panes
    unfold Layout.setActiveTab
    split <;> exact AltersAll.refl l.panes
  | reorderTab fromIndex toIndex =>
    change AltersAll _ _ _ _ (l.reorderTab fromIndex toIndex).panes
    unfold Layout.reorderTab
    dsimp only
    repeat' split
    all_goals exact AltersAll.refl l.panes
  | vacateAllPanesInTab tabId newId =>
    change AltersAll _ _ _ _ (l.vacateAllPanesInTab tabId newId).panes
    unfold Layout.vacateAllPanesInTab
    cases hroot : l.layout tabId with
    | none => exact .refl _
    | some root =>
      have hroot : l.panes.layout tabId = some root := hroot
      have hput : AltersAll limit l (.vacateAllPanesInTab tabId newId) l.panes
          { l.panes.putLayout tabId (root.vacateNode newId 0).1 with
            activePaneIds := l.activePaneIds.delete tabId } := by
        refine .put (fun t ht => get_delete_of_ne _ ht) ?_
        rw [hroot, get_delete_self]
        exact .refocused root _ _ _ (length_leaves_vacateNode newId root 0).le fun _ => nofun
      exact hput
  | closeOthers view keepIndex =>
    change AltersAll _ _ _ _ (l.closeOthers view keepIndex).panes
    unfold Layout.closeOthers
    split
    · exact .refl _
    · exact keep_alters l _ _
  | closeToRight view fromIndex => exact delete_alters l _ _
  | closeAll view exceptWelcomeChannelId => exact keep_alters l _ _
  | moveToNewTab sourceChannelId insertAtIndex vacantId newTabId newPaneId =>
    change AltersAll _ _ _ _ (l.moveToNewTab sourceChannelId insertAtIndex vacantId newTabId
      newPaneId).panes
    unfold Layout.moveToNewTab
    split
    · exact .refl _
    · next tab _ =>
      exact insertTab_alters (vacatePaneInTab_alters l.panes tab sourceChannelId vacantId) _
        newTabId sourceChannelId newPaneId
  | setActivePaneId tabId paneId =>
    intro tab
    have hactive : (l.panes.setActivePaneId tabId paneId).activePaneIds.get tab =
        if tab = tabId then some paneId else l.activePaneIds.get tab :=
      l.activePaneIds.get_set tabId tab paneId
    change Alters _ _ _ _ _ _ _ ((l.panes.setActivePaneId tabId paneId).activePaneIds.get tab)
    rw [hactive]
    by_cases htab : tab = tabId
    · subst htab
      rw [if_pos rfl]
      exact .focused _ _ paneId rfl
    · rw [if_neg htab]
      exact .same _ _
  | setLayout node =>
    intro tab
    change Alters _ _ _ _ _ _ ((l.panes.setLayout node).layout tab)
      ((l.panes.setLayout node).activePaneIds.get tab)
    unfold State.setLayout
    cases hactive : l.panes.activeTab with
    | none => exact .same _ _
    | some tabId =>
      unfold State.layout
      rw [get_set]
      by_cases htab : tab = tabId
      · subst htab
        rw [if_pos rfl]
        exact .set _ node _ rfl hactive
      · rw [if_neg htab]
        exact .same _ _
  | splitPane channelId direction newId => exact splitPane_alters l.panes channelId direction newId
  | unsplitPane channelId => exact collapseActive_alters (.inl ⟨channelId, rfl, rfl⟩)
  | updateRatio splitNodePath ratio => exact updateRatio_alters l.panes splitNodePath ratio
  | replaceChannelId oldId newId => exact replaceChannelId_alters l.panes oldId newId
  | detachPane channelId newId =>
    change AltersAll _ _ _ _ (l.panes.detachPane channelId newId)
    unfold State.detachPane State.vacatePane
    split
    · exact .refl _
    · exact vacatePaneInTab_alters l.panes _ channelId newId
  | closePane channelId newId => exact closePane_alters l.panes channelId newId
  | fillVacant vacantId channelId newPaneId =>
    exact fillVacant_alters l.panes l.tabs vacantId channelId newPaneId
  | closeVacantPane vacantId =>
    change AltersAll _ _ _ _ (l.closeVacantPane vacantId).panes
    unfold Layout.closeVacantPane
    split
    · exact .refl _
    · next tabId htab =>
      split
      · cases l.tabs.idxOf? tabId with
        | none => exact .refl _
        | some index => exact closeTab_alters l index
      · next hroot =>
        refine collapseActive_alters (.inr ⟨vacantId, rfl, rfl, fun tab htab' => ?_⟩)
        obtain ⟨rfl⟩ := htab.symm.trans htab'
        exact hroot
  | dropPane sourceChannelId targetPaneId targetTabId zone vacantId newPaneId =>
    exact onDropPane_alters l sourceChannelId targetPaneId targetTabId zone vacantId newPaneId

end Alters

/-! ### The limit -/

/-- No tab has more panes than the limit. -/
def Layout.Within (limit : ℕ) (l : Layout) : Prop :=
  ∀ tab root, l.layout tab = some root → root.countLeaves ≤ limit

/-- When a step keeps the limit: a tree that is set is within it, and a pane is dropped beside
another only if the limit is not under four, or the tab has room. -/
def Roomy (limit : ℕ) (w : Window) : Step → Prop
  | .perform (.setLayout node) => ∀ root ∈ node, root.countLeaves ≤ limit
  | .perform (.dropPane _ _ target zone _ _) =>
    zone = .center ∨ 4 ≤ limit ∨ ∀ root ∈ w.layout.layout target, root.countLeaves < limit
  | _ => True

instance (limit : ℕ) (w : Window) : (step : Step) → Decidable (Roomy limit w step)
  | .perform op => by
    cases op <;> dsimp only [Roomy] <;> infer_instance
  | .save => inferInstanceAs (Decidable True)
  | .restore => inferInstanceAs (Decidable True)

theorem Layout.Within.perform {limit : ℕ} {w : Window} {op : Op} (hlimit : 1 ≤ limit)
    (h : w.layout.Within limit) (hok : Roomy limit w (.perform op)) :
    (w.layout.perform limit op).Within limit := by
  intro tab root' hroot'
  have halters := alters_perform limit w.layout op tab
  have hroot' : (w.layout.perform limit op).panes.layout tab = some root' := hroot'
  have hbefore : ∀ root, w.layout.panes.layout tab = some root → root.leaves.length ≤ limit :=
    fun root hroot => by rw [← countLeaves_eq]; exact h tab root hroot
  rw [hroot'] at halters
  rw [countLeaves_eq]
  generalize htree : w.layout.panes.layout tab = tree at halters
  generalize hfocus' : (w.layout.perform limit op).panes.activePaneIds.get tab = focus' at halters
  cases halters with
  | same | focused => exact hbefore root' htree
  | opened _ _ _ leaf hleaf =>
    rw [hleaf]
    exact hlimit
  | relabelled root _ _ hlen => exact hlen.trans_le (hbefore root htree)
  | split root _ _ hroom hlen => omega
  | refocused root _ _ _ hlen => exact hlen.trans (hbefore root htree)
  | collapsed root _ _ test pre post leaf hleaf hleaves =>
    have hlen := hbefore root htree
    rw [hleaf.leaves] at hlen
    rw [hleaves]
    simp only [length_append, length_cons] at hlen ⊢
    omega
  | set _ _ _ hop =>
    subst hop
    rw [← countLeaves_eq]
    exact hok root' rfl
  | beside root _ _ src pane zone vacantId paneId hop hzone hroom hlen =>
    subst hop
    rcases hok with hcenter | hfour | hless
    · exact absurd hcenter hzone
    · omega
    · have hless := hless root htree
      rw [countLeaves_eq] at hless
      omega

/-- **No tab has more panes than the limit**, and nothing saved has: where the settings allow less
than four panes, as long as no pane is dropped beside another in a tab that is full. -/
theorem panes_within (limit : ℕ) (hlimit : 1 ≤ limit) (w₀ w : Window)
    (h₀ : w₀.layout.Within limit) (hsaved : ∀ l ∈ w₀.saved, l.Within limit)
    (h : Run (next limit) (Roomy limit) w₀ w) :
    w.layout.Within limit ∧ ∀ l ∈ w.saved, l.Within limit := by
  refine Window.invariant (fun tab root hroot => nomatch hroot) ?_ h₀ hsaved h
  intro w op hw hok
  exact hw.perform hlimit hok

/-- Two tabs with a terminal each, the first of them split. -/
def twoSplit : List Step :=
  [.perform (.openTab false "c1" "t1" "p1"), .perform (.openTab false "c2" "t2" "p2"),
    .perform (.setActiveTab 0), .perform (.splitPane "c1" .vertical "v1")]

theorem panes_within_dropped : ∃ w, Run (next 4) (Roomy 4) Window.start w ∧
    (w.layout.layout "t1").map countLeaves = some 3 ∧ w.layout.Within 4 := by
  have hrun : Run (next 4) (Roomy 4) Window.start _ := .get
    (twoSplit ++ [.perform (.dropPane "c2" "p1" "t1" .left "v2" "p3")]) (by decide +kernel)
    (by decide +kernel)
  exact ⟨_, hrun, by decide +kernel, (panes_within 4 (by decide) Window.start _ nofun nofun hrun).1⟩

/-- Where the settings allow two panes, a pane dropped beside one of two makes three. -/
theorem panes_beyond : ¬∀ (limit : ℕ) (w₀ w : Window), 1 ≤ limit → w₀.layout.Within limit →
    (∀ l ∈ w₀.saved, l.Within limit) → Run (next limit) free w₀ w → w.layout.Within limit := by
  intro hall
  have hrun : Run (next 2) free Window.start _ := .get_free
    (twoSplit ++ [.perform (.dropPane "c2" "p1" "t1" .left "v2" "p3")]) (by decide +kernel)
  have hwithin := hall 2 Window.start _ (by decide) nofun nofun hrun
  exact absurd (hwithin "t1" _ (some_get (by decide +kernel)).symm) (by decide +kernel)

/-! ### The focus -/

/-- The focus of a tab is on one of its panes. -/
def Layout.Focused (l : Layout) : Prop :=
  ∀ tab paneId, l.activePaneIds.get tab = some paneId →
    ∃ root, l.layout tab = some root ∧ root.HasPane paneId

/-- When a step keeps the focus on a pane: the focus is given to a pane of the tab; a tree that is
set has the focused pane; and the pane taken away by `unsplitPane` or `rearrangeVacant` is not
the focused one. -/
def Settled (w : Window) : Step → Prop
  | .perform (.openVacantTab _ newTabId _) => w.layout.activePaneIds.get newTabId = none
  | .perform (.setActivePaneId tab paneId) =>
    ∃ root ∈ w.layout.layout tab, root.HasPane paneId
  | .perform (.setLayout node) => ∀ tab ∈ w.layout.activeTab,
    ∀ paneId ∈ w.layout.activePaneIds.get tab, ∃ root ∈ node, root.HasPane paneId
  | .perform (.unsplitPane channelId) => ∀ tab ∈ w.layout.activeTab,
    ∀ paneId ∈ w.layout.activePaneIds.get tab, ∀ root ∈ w.layout.layout tab,
      root.findChannelByPaneId paneId ≠ some channelId
  | .perform (.closeVacantPane vacantId) => ∀ tab ∈ w.layout.activeTab,
    w.layout.activePaneIds.get tab ≠ some vacantId ∨ w.layout.layout tab = some (.vacant vacantId)
  | _ => True

instance (w : Window) : (step : Step) → Decidable (Settled w step)
  | .perform op => by
    cases op <;> dsimp only [Settled] <;> infer_instance
  | .save => inferInstanceAs (Decidable True)
  | .restore => inferInstanceAs (Decidable True)

theorem PaneNode.FirstLeaf.pane_stays_of_ne {root leaf : PaneNode} {pre post : List PaneNode}
    {vacantId paneId : String} (h : FirstLeaf (isVacant vacantId) root pre leaf post)
    (hpane : root.HasPane paneId) (hne : paneId ≠ vacantId) :
    ∃ l ∈ pre ++ post, l.isPane paneId = true := by
  refine (h.isPane_or_stays hpane).resolve_left fun hid => ?_
  have hpasses := h.passes
  cases leaf with
  | vacant id =>
    have hvacant : id = vacantId := by simpa [isVacant] using hpasses
    have hid : id = paneId := by simpa [isPane, getLeafId] using hid
    exact absurd (hid.symm.trans hvacant) hne
  | terminal | split => cases hpasses

theorem Layout.Focused.perform {limit : ℕ} {w : Window} {op : Op} (h : w.layout.Focused)
    (hok : Settled w (.perform op)) : (w.layout.perform limit op).Focused := by
  intro tab p hfocus'
  have halters := alters_perform limit w.layout op tab
  have hfocus' : (w.layout.perform limit op).panes.activePaneIds.get tab = some p := hfocus'
  have hbefore : ∀ q, w.layout.panes.activePaneIds.get tab = some q →
      ∃ root, w.layout.panes.layout tab = some root ∧ root.HasPane q := h tab
  change ∃ root, (w.layout.perform limit op).panes.layout tab = some root ∧ root.HasPane p
  rw [hfocus'] at halters
  generalize htree : w.layout.panes.layout tab = tree at halters hbefore
  generalize hfocus : w.layout.panes.activePaneIds.get tab = focus at halters hbefore
  generalize (w.layout.perform limit op).panes.layout tab = tree' at halters ⊢
  cases halters with
  | same => exact hbefore p rfl
  | opened _ _ _ leaf hleaf hpane =>
    refine ⟨leaf, rfl, leaf, by rw [hleaf]; exact mem_singleton_self leaf, ?_⟩
    rcases hpane p rfl with hpane | ⟨hsame, afterActive, paneId, hop⟩
    · exact hpane
    · subst hop
      have hnone : w.layout.activePaneIds.get tab = none := hok
      exact nomatch hsame.trans (hfocus.symm.trans hnone)
  | relabelled _ root' _ _ hids | split _ root' _ _ _ hids =>
    obtain ⟨_, hroot, hpane⟩ := hbefore p rfl
    cases hroot
    exact ⟨root', rfl, hids p hpane⟩
  | refocused root root' _ _ hlen hpane =>
    refine ⟨root', rfl, hpane (fun q hq => ?_) p rfl⟩
    obtain ⟨_, hroot, hpane⟩ := hbefore q hq
    cases hroot
    exact hpane
  | collapsed root root' _ test pre post leaf hleaf hleaves hfront hop =>
    obtain ⟨_, hroot, hpane⟩ := hbefore p rfl
    cases hroot
    refine ⟨root', rfl, ?_⟩
    unfold HasPane
    rw [hleaves]
    rcases hop with ⟨c, rfl, rfl⟩ | ⟨v, rfl, rfl, hroot⟩
    · exact hleaf.pane_stays hpane (hok tab hfront p hfocus root htree)
    · refine hleaf.pane_stays_of_ne hpane fun hpv => ?_
      subst hpv
      exact (hok tab hfront).elim (fun hne => hne hfocus) hroot
  | set _ _ _ hop hfront =>
    subst hop
    exact hok tab hfront p hfocus
  | focused _ _ paneId hop =>
    subst hop
    obtain ⟨root, hroot, hpane⟩ := hok
    exact ⟨root, htree.symm.trans hroot, hpane⟩
  | beside root root' _ src pane zone vacantId paneId hop hzone hroom hlen hpane =>
    exact ⟨root', rfl, hpane⟩

theorem State.getActiveChannelId_shown {s : State} {tab channelId : String}
    (h : s.getActiveChannelId tab = some channelId) :
    ∃ root, s.layout tab = some root ∧ channelId ∈ root.collectTerminalChannelIds := by
  obtain ⟨root, hroot, h⟩ := bind_eq_some_iff.mp h
  refine ⟨root, hroot, ?_⟩
  split at h
  · next hfound =>
    cases h
    obtain ⟨paneId, -, hchannel⟩ := bind_eq_some_iff.mp hfound
    exact mem_channels_of_findChannelByPaneId hchannel
  · exact mem_channels_of_findChannelByPaneId h

/-- **The focused pane is a pane of its tab**, where none is taken away with the focus on it; and
the channel reported for a tab is shown in it. -/
theorem active_pane_shown (limit : ℕ) (w : Window)
    (h : Run (next limit) Settled Window.start w) :
    w.layout.Focused ∧ ∀ tab channelId, w.layout.panes.getActiveChannelId tab = some channelId →
      ∃ root, w.layout.layout tab = some root ∧ channelId ∈ root.collectTerminalChannelIds := by
  refine ⟨?_, fun tab channelId hchannel => State.getActiveChannelId_shown hchannel⟩
  refine (Window.invariant (fun tab paneId hfocus => nomatch hfocus) ?_ nofun nofun h).1
  intro w op hw hok
  exact hw.perform hok

/-- A terminal split, and the focus given to the vacant half. -/
def focusVacant : List Step :=
  [.perform (.openTab false "c1" "t1" "p1"), .perform (.splitPane "c1" .vertical "v1"),
    .perform (.setActivePaneId "t1" "v1")]

theorem active_pane_shown_closed : ∃ w, Run (next 4) Settled Window.start w ∧
    w.layout.activePaneIds.get "t1" = some "v1" ∧ w.layout.Focused := by
  have hrun : Run (next 4) Settled Window.start _ := .get
    (focusVacant ++ [.perform (.closePane "c1" "v2")]) (by decide +kernel) (by decide +kernel)
  exact ⟨_, hrun, by decide +kernel, (active_pane_shown 4 _ hrun).1⟩

/-- A vacant slot closed with the focus on it leaves the focus on no pane. -/
theorem focus_left_behind : ¬∀ (limit : ℕ) (w : Window), Run (next limit) free Window.start w →
    w.layout.Focused := by
  intro hall
  have hrun : Run (next 4) free Window.start _ := .get_free
    (focusVacant ++ [.perform (.closeVacantPane "v1")]) (by decide +kernel)
  obtain ⟨root, hroot, hpane⟩ := hall 4 _ hrun "t1" "v1" (by decide +kernel)
  obtain ⟨rfl⟩ : some root = some (.terminal "c1" "p1") := by
    rw [← hroot]
    decide +kernel
  exact absurd hpane (by decide)

end Lasterm.Web
