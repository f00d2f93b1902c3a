import Lasterm.Web.LayoutPanes
import Mathlib.Data.List.Perm.Basic

/-!
# The tabs of a window

The active tab is an index into the list of tabs, which nearly every operation on tabs reshapes.
The operations that bring a tab to the front are those that open one, the one that selects one, and
"close the others", which brings the tab that is kept.

## Main definitions

* `Sound` — the index is one of the list, and nothing is kept for a tab that is not there.
* `KeepsFront` — which tab is in front after an operation.

## Main results

* `tabs_sound` — both, after any operations.
-/

namespace Lasterm.Web

open Transition PaneNode List Option OrderedMap

namespace Layout

/-- The active tab's index and the keys of the two maps are those of tabs that are there. -/
structure Sound (l : Layout) : Prop where
  nodup : l.tabs.Nodup
  layouts : ∀ tab ∈ l.layouts.keys, tab ∈ l.tabs
  panes : ∀ tab ∈ l.activePaneIds.keys, tab ∈ l.tabs
  index : l.tabs ≠ [] → l.activeTabIndex < l.tabs.length

end Layout

/-- The tab an operation brings to the front. -/
def Op.brings (l : Layout) : Op → Option String
  | .openTab _ channelId newTabId _ =>
    match l.panes.findTabForChannel channelId with
    | some tab => some (if tab ∈ l.tabs then tab else newTabId)
    | none => some newTabId
  | .openVacantTab _ newTabId _ => some newTabId
  | .setActiveTab index => elementAt l.tabs index
  | .closeOthers _ keepIndex => elementAt l.tabs keepIndex
  | .moveToNewTab sourceChannelId _ _ newTabId _ =>
    (l.panes.findTabForChannel sourceChannelId).map fun _ => newTabId
  | _ => none

/-- `generateId` gives a new tab an id that no tab has; and the focus is set in a tab that is
there. -/
def New (w : Window) : Step → Prop
  | .perform (.openTab _ _ newTabId _) => newTabId ∉ w.layout.tabs
  | .perform (.openVacantTab _ newTabId _) => newTabId ∉ w.layout.tabs
  | .perform (.moveToNewTab _ _ _ newTabId _) => newTabId ∉ w.layout.tabs
  | .perform (.setActivePaneId tab _) => tab ∈ w.layout.tabs
  | _ => True

instance (w : Window) : (step : Step) → Decidable (New w step)
  | .perform op => by
    apply Op.casesOn (motive := fun op => Decidable (New w (.perform op))) op <;> intros <;>
      dsimp only [New] <;> infer_instance
  | .save => inferInstanceAs (Decidable True)
  | .restore => inferInstanceAs (Decidable True)

/-! ### Places in a list -/

section Places

variable {α : Type*} {l : List α} {a : α} {i j : ℕ}

theorem getElem?_of_idxOf? [DecidableEq α] (h : l.idxOf? a = some i) : l[i]? = some a := by
  obtain ⟨hlt, heq, -⟩ := idxOf?_eq_some_iff.mp h
  rw [getElem?_eq_getElem hlt, heq]

theorem idxOf?_of_mem [DecidableEq α] (h : a ∈ l) : ∃ i, l.idxOf? a = some i ∧ l[i]? = some a := by
  obtain ⟨i, hi⟩ := isSome_iff_exists.mp (isSome_idxOf?.mpr h)
  exact ⟨i, hi, getElem?_of_idxOf? hi⟩

theorem elementAt_eq_some {k : ℤ} (h : elementAt l k = some a) :
    0 ≤ k ∧ l[k.toNat]? = some a := by
  unfold elementAt at h
  split at h
  · next hk => exact ⟨hk, h⟩
  · cases h

theorem lt_of_getElem? (h : l[i]? = some a) : i < l.length :=
  (List.getElem?_eq_some_iff.mp h).1

/-- Where the element at `j` is once the element at `i` is taken out. -/
theorem getElem?_eraseIdx_shift (hne : j ≠ i) :
    (l.eraseIdx i)[if i < j then j - 1 else j]? = l[j]? := by
  rw [getElem?_eraseIdx]
  by_cases hij : i < j
  · rw [if_pos hij, if_neg (by omega)]
    congr 1
    omega
  · rw [if_neg hij, if_pos (by omega)]

/-- Where the element at `j` is once one is put in at `i`. -/
theorem getElem?_insertIdx_shift :
    (l.insertIdx i a)[if i ≤ j then j + 1 else j]? = l[j]? := by
  rw [getElem?_insertIdx]
  by_cases hij : i ≤ j
  · rw [if_pos hij, if_neg (by omega), if_neg (by omega)]
    rfl
  · rw [if_neg hij, if_pos (by omega)]

end Places

/-- The tab in front after an operation that was to bring `brings` there. -/
def KeepsFront (brings : Option String) (l l' : Layout) : Prop :=
  match brings with
  | some tab => l'.activeTab = some tab
  | none => ∀ tab, l.activeTab = some tab → tab ∈ l'.tabs → l'.activeTab = some tab

namespace Layout.Sound

variable {l : Layout} {tab : String}

theorem activeTab_mem (h : l.activeTab = some tab) : tab ∈ l.tabs :=
  mem_of_getElem? h

theorem empty : Layout.empty.Sound := ⟨nodup_nil, nofun, nofun, fun h => absurd rfl h⟩

theorem insertTab (h : l.Sound) {idx : ℕ} (hidx : idx ≤ l.tabs.length) {newTabId : String}
    (hnew : newTabId ∉ l.tabs) (root : PaneNode) (focus : Option String) :
    (l.insertTab idx newTabId root focus).Sound ∧
      (l.insertTab idx newTabId root focus).activeTab = some newTabId := by
  have hmem : ∀ t, t ∈ l.tabs.insertIdx idx newTabId ↔ t = newTabId ∨ t ∈ l.tabs :=
    fun t => mem_insertIdx hidx
  refine ⟨⟨?_, fun t ht => ?_, fun t ht => ?_, fun _ => ?_⟩, ?_⟩
  · exact (perm_insertIdx newTabId l.tabs hidx).nodup_iff.mpr (nodup_cons.mpr ⟨hnew, h.nodup⟩)
  · exact (hmem t).mpr ((mem_keys_set.mp ht).imp id (h.layouts t))
  · refine (hmem t).mpr ?_
    cases focus with
    | none => exact .inr (h.panes t ht)
    | some p => exact (mem_keys_set.mp ht).imp id (h.panes t)
  · change idx < (l.tabs.insertIdx idx newTabId).length
    rw [length_insertIdx_of_le_length hidx]
    omega
  · change (l.tabs.insertIdx idx newTabId)[idx]? = some newTabId
    rw [getElem?_insertIdx_self, if_pos hidx]

theorem closeTab (h : l.Sound) (index : ℤ) :
    (l.closeTab index).Sound ∧ KeepsFront none l (l.closeTab index) := by
  unfold Layout.closeTab
  cases hat : elementAt l.tabs index with
  | none => exact ⟨h, fun t ht _ => ht⟩
  | some closed =>
    obtain ⟨-, hclosed⟩ := elementAt_eq_some hat
    generalize index.toNat = i at hclosed
    have hi := lt_of_getElem? hclosed
    have hlen := length_eraseIdx_of_lt hi
    have hne : ∀ t ∈ l.tabs, t ≠ closed → t ∈ l.tabs.eraseIdx i := by
      intro t ht hne
      obtain ⟨j, hj⟩ := mem_iff_getElem?.mp ht
      refine mem_eraseIdx_iff_getElem?.mpr ⟨j, fun hji => ?_, hj⟩
      subst hji
      exact hne (some.inj (hj.symm.trans hclosed))
    have hkept : ∀ {ν : Type} (m : OrderedMap String ν), (∀ t ∈ m.keys, t ∈ l.tabs) →
        ∀ t ∈ (m.delete closed).keys, t ∈ l.tabs.eraseIdx i := by
      intro ν m hm t ht
      refine hne t (hm t (mem_keys_of_delete ht)) fun hclosed => ?_
      subst hclosed
      obtain ⟨v, hv⟩ := (mem_keys_iff _ t).mp ht
      rw [get_delete_self] at hv
      cases hv
    refine ⟨⟨h.nodup.sublist (eraseIdx_sublist _ _), hkept _ h.layouts, hkept _ h.panes,
      fun hnil => ?_⟩, fun t ht hmem => ?_⟩
    · have hpos := length_pos_iff.mpr hnil
      dsimp only at hpos ⊢
      split
      · omega
      · split <;> omega
    · -- the tab in front is another, and is found one place further on if the closed was before it
      have ht : l.tabs[l.activeTabIndex]? = some t := ht
      have hfront := lt_of_getElem? ht
      have hother : l.activeTabIndex ≠ i := by
        intro heq
        obtain ⟨j, hji, hj⟩ := mem_eraseIdx_iff_getElem?.mp hmem
        have hjt := (getElem?_inj (lt_of_getElem? hj) h.nodup).mp (hj.trans ht.symm)
        omega
      have hshift := getElem?_eraseIdx_shift (l := l.tabs) hother
      rw [ht] at hshift
      change (l.tabs.eraseIdx i)[_]? = some t
      rw [← hshift]
      congr 1
      dsimp only
      split
      · split <;> omega
      · rfl

theorem reorderTab (h : l.Sound) (fromIndex toIndex : ℤ) :
    (l.reorderTab fromIndex toIndex).Sound ∧
      KeepsFront none l (l.reorderTab fromIndex toIndex) := by
  have hsame : l.Sound ∧ KeepsFront none l l := ⟨h, fun t ht _ => ht⟩
  unfold Layout.reorderTab
  split
  · exact hsame
  split
  · exact hsame
  next hfrom =>
  dsimp only
  generalize hto : max 0 (min toIndex ((l.tabs.length : ℤ) - 1)) = clampedTo
  split
  · exact hsame
  next hdiffer =>
  cases hmoved : l.tabs[fromIndex.toNat]? with
  | none => exact hsame
  | some moved =>
    -- both places are indices from here on
    obtain ⟨i, rfl⟩ : ∃ i : ℕ, fromIndex = i := ⟨fromIndex.toNat, by omega⟩
    obtain ⟨j, rfl⟩ : ∃ j : ℕ, clampedTo = j := ⟨clampedTo.toNat, by omega⟩
    rw [Int.toNat_natCast] at hmoved
    simp only [Int.toNat_natCast]
    have hi := lt_of_getElem? hmoved
    have hlen := length_eraseIdx_of_lt hi
    have hj : j ≤ (l.tabs.eraseIdx i).length := by omega
    have hperm : ((l.tabs.eraseIdx i).insertIdx j moved).Perm l.tabs := by
      have hget : l.tabs[i] = moved := (List.getElem?_eq_some_iff.mp hmoved).2
      refine (perm_insertIdx moved _ hj).trans ?_
      rw [← hget]
      exact getElem_cons_eraseIdx_perm hi
    refine ⟨⟨hperm.nodup_iff.mpr h.nodup, fun t ht => hperm.mem_iff.mpr (h.layouts t ht),
      fun t ht => hperm.mem_iff.mpr (h.panes t ht), fun hnil => ?_⟩, fun t ht _ => ?_⟩
    · have hfront := h.index fun hempty => by rw [hempty] at hi; cases hi
      have hlength := hperm.length_eq
      dsimp only
      rw [hlength]
      split_ifs <;> omega
    · have ht : l.tabs[l.activeTabIndex]? = some t := ht
      have hfront := lt_of_getElem? ht
      change ((l.tabs.eraseIdx i).insertIdx j moved)[_]? = some t
      by_cases hdragged : l.activeTabIndex = i
      · dsimp only
        rw [if_pos (by omega), getElem?_insertIdx_self, if_pos hj]
        rw [hdragged] at ht
        exact hmoved.symm.trans ht
      · have hshift := getElem?_eraseIdx_shift (l := l.tabs) hdragged
        rw [ht] at hshift
        dsimp only
        rw [if_neg (by omega), ← hshift,
          ← getElem?_insertIdx_shift (l := l.tabs.eraseIdx i) (a := moved) (i := j)]
        congr 1
        split_ifs <;> omega

theorem index_lt {next : List String} {front : Option String} {i : ℕ} (hi : next ≠ [] → i < next.length)
    (hne : next ≠ []) : (front.bind next.idxOf?).getD i < next.length := by
  cases hfound : front.bind next.idxOf? with
  | none => exact hi hne
  | some j =>
    obtain ⟨t, -, ht⟩ := bind_eq_some_iff.mp hfound
    exact lt_of_getElem? (getElem?_of_idxOf? ht)

theorem front_found {next : List String} {i : ℕ} (hmem : tab ∈ next) :
    next[((some tab).bind next.idxOf?).getD i]? = some tab := by
  obtain ⟨j, hj, hget⟩ := idxOf?_of_mem hmem
  rw [bind_some, hj]
  exact hget

theorem keep (l : Layout) (keepIds : List String) :
    (∀ t ∈ (l.keepLayouts keepIds).keys, t ∈ l.tabs.filter (· ∈ keepIds)) ∧
      ∀ t ∈ (l.keepPanes keepIds).keys, t ∈ l.tabs.filter (· ∈ keepIds) := by
  constructor
  · intro t ht
    obtain ⟨v, hv⟩ := (mem_keys_iff _ t).mp ht
    rw [get_keepLayouts] at hv
    obtain ⟨⟨hmem, hkeep⟩, -⟩ := ite_none_right_eq_some.mp hv
    exact mem_filter.mpr ⟨hmem, by simpa using hkeep⟩
  · intro t ht
    obtain ⟨v, hv⟩ := (mem_keys_iff _ t).mp ht
    rw [get_keepPanes] at hv
    obtain ⟨⟨hmem, hkeep⟩, -⟩ := ite_none_right_eq_some.mp hv
    exact mem_filter.mpr ⟨hmem, by simpa using hkeep⟩

theorem closeOthers (h : l.Sound) (view : View) (keepIndex : ℤ) :
    (l.closeOthers view keepIndex).Sound ∧
      KeepsFront (elementAt l.tabs keepIndex) l (l.closeOthers view keepIndex) := by
  unfold Layout.closeOthers
  cases hat : elementAt l.tabs keepIndex with
  | none => exact ⟨h, fun t ht _ => ht⟩
  | some kept =>
    have hmem : kept ∈ l.tabs := mem_of_getElem? (elementAt_eq_some hat).2
    have hkept : kept ∈ l.tabs.filter (· ∈ kept :: l.outOfView view) :=
      mem_filter.mpr ⟨hmem, by simp⟩
    have hkeys := keep l (kept :: l.outOfView view)
    have hfound := front_found (i := 0) hkept
    rw [bind_some] at hfound
    exact ⟨⟨h.nodup.filter _, hkeys.1, hkeys.2, fun _ => lt_of_getElem? hfound⟩, hfound⟩

theorem closeAll (h : l.Sound) (view : View) (exceptWelcomeChannelId : Option String) :
    (l.closeAll view exceptWelcomeChannelId).Sound ∧
      KeepsFront none l (l.closeAll view exceptWelcomeChannelId) := by
  unfold Layout.closeAll
  dsimp only
  generalize (exceptWelcomeChannelId.bind l.panes.findTabForChannel).toList ++ l.outOfView view =
    keepIds
  have hkeys := keep l keepIds
  refine ⟨⟨h.nodup.filter _, hkeys.1, hkeys.2,
    index_lt fun hne => length_pos_iff.mpr hne⟩, fun t ht hmem => ?_⟩
  rw [ht]
  exact front_found hmem

theorem closeToRight (h : l.Sound) (view : View) (fromIndex : ℤ) :
    (l.closeToRight view fromIndex).Sound ∧
      KeepsFront none l (l.closeToRight view fromIndex) := by
  unfold Layout.closeToRight
  dsimp only
  generalize (sliceFrom l.tabs (fromIndex + 1)).filter (fun tabId =>
    (l.tabsInView view).elim true (decide <| tabId ∈ ·)) = removed
  have hkept : ∀ {ν : Type} (m : OrderedMap String ν), (∀ t ∈ m.keys, t ∈ l.tabs) →
      ∀ t ∈ (removed.foldl delete m).keys, t ∈ l.tabs.filter (· ∉ removed) := by
    intro ν m hm t ht
    obtain ⟨v, hv⟩ := (mem_keys_iff _ t).mp ht
    rw [get_foldl_delete] at hv
    obtain ⟨hout, hget⟩ := ite_none_left_eq_some.mp hv
    refine mem_filter.mpr ⟨hm t ((mem_keys_iff _ t).mpr ⟨v, hget⟩), ?_⟩
    simpa using hout
  refine ⟨⟨h.nodup.filter _, hkept _ h.layouts, hkept _ h.panes, index_lt fun hne => ?_⟩,
    fun t ht hmem => ?_⟩
  · refine index_lt (fun hne => ?_) hne
    have hpos := length_pos_iff.mpr hne
    omega
  · rw [ht]
    exact front_found hmem

theorem setActiveTab (h : l.Sound) (index : ℤ) :
    (l.setActiveTab index).Sound ∧
      KeepsFront (elementAt l.tabs index) l (l.setActiveTab index) := by
  unfold Layout.setActiveTab elementAt
  by_cases hindex : 0 ≤ index ∧ index < l.tabs.length
  · have hlt : index.toNat < l.tabs.length := by omega
    rw [if_pos hindex, if_pos hindex.1, getElem?_eq_getElem hlt]
    exact ⟨⟨h.nodup, h.layouts, h.panes, fun _ => hlt⟩, getElem?_eq_getElem hlt⟩
  · rw [if_neg hindex]
    have hnone : (if 0 ≤ index then l.tabs[index.toNat]? else none) = none := by
      split
      · exact getElem?_eq_none (by omega)
      · rfl
    rw [hnone]
    exact ⟨h, fun t ht _ => ht⟩

theorem addTab (h : l.Sound) (afterActive : Bool) {newTabId : String} (hnew : newTabId ∉ l.tabs)
    (root : PaneNode) (focus : Option String) :
    (l.addTab afterActive newTabId root focus).Sound ∧
      (l.addTab afterActive newTabId root focus).activeTab = some newTabId := by
  refine h.insertTab ?_ hnew root focus
  split <;> omega

theorem openTab (h : l.Sound) (afterActive : Bool) (channelId : String) {newTabId : String}
    (hnew : newTabId ∉ l.tabs) (newPaneId : String) :
    (l.openTab afterActive channelId newTabId newPaneId).Sound ∧
      KeepsFront (Op.brings l (.openTab afterActive channelId newTabId newPaneId)) l
        (l.openTab afterActive channelId newTabId newPaneId) := by
  have hadd := h.addTab afterActive hnew (.terminal channelId newPaneId) (some newPaneId)
  unfold Layout.openTab Op.brings
  dsimp only
  cases hfound : l.panes.findTabForChannel channelId with
  | none => exact hadd
  | some tab =>
    dsimp only [bind_some]
    by_cases hmem : tab ∈ l.tabs
    · obtain ⟨i, hi, hget⟩ := idxOf?_of_mem hmem
      rw [hi, if_pos hmem]
      exact ⟨⟨h.nodup, h.layouts, h.panes, fun _ => lt_of_getElem? hget⟩, hget⟩
    · rw [idxOf?_eq_none_iff.mpr hmem, if_neg hmem]
      exact hadd

end Layout.Sound

/-! ### The keys after an operation on panes -/

/-- An operation on panes adds no tab: a tree only where there was one, and the focus only where
there was one or a tree. -/
structure State.Keeps (s s' : State) : Prop where
  layouts : ∀ tab ∈ s'.layouts.keys, tab ∈ s.layouts.keys
  panes : ∀ tab ∈ s'.activePaneIds.keys, tab ∈ s.activePaneIds.keys ∨ tab ∈ s.layouts.keys

namespace State.Keeps

variable {s s' s'' : State} {tab channelId newId : String} {root : PaneNode}

theorem refl (s : State) : s.Keeps s := ⟨fun _ => id, fun _ => .inl⟩

theorem trans (h : s.Keeps s') (h' : s'.Keeps s'') : s.Keeps s'' where
  layouts t ht := h.layouts t (h'.layouts t ht)
  panes t ht := (h'.panes t ht).elim (h.panes t) fun hl => .inr (h.layouts t hl)

theorem putLayout (h : s.layout tab = some root) (root' : PaneNode) :
    s.Keeps (s.putLayout tab root') where
  layouts _ ht := mem_keys_of_set (get_layouts_of_layout h) ht
  panes _ ht := .inl ht

theorem setActivePaneId (h : tab ∈ s.layouts.keys) (paneId : String) :
    s.Keeps (s.setActivePaneId tab paneId) where
  layouts _ := id
  panes t ht := by
    rcases mem_keys_set.mp ht with rfl | ht
    · exact .inr h
    · exact .inl ht

theorem deleteActive (s : State) (tab : String) :
    s.Keeps { s with activePaneIds := s.activePaneIds.delete tab } where
  layouts _ := id
  panes _ ht := .inl (mem_keys_of_delete ht)

theorem moveActive (h : tab ∈ s.layouts.keys) (root : PaneNode) : s.Keeps (s.moveActive tab root) := by
  unfold State.moveActive
  split
  · exact setActivePaneId h _
  · exact deleteActive s tab

theorem takenOut (h : s.layout tab = some root) (channelId : String) (root' : PaneNode) :
    s.Keeps
      (match s.activePaneIds.get tab with
      | none => s.putLayout tab root'
      | some activePaneId =>
        if root.findChannelByPaneId activePaneId = some channelId then
          (s.putLayout tab root').moveActive tab root'
        else s.putLayout tab root') := by
  have hput := putLayout h root'
  split
  · exact hput
  split
  · refine hput.trans (moveActive ?_ root')
    exact mem_keys_set.mpr (.inl rfl)
  · exact hput

theorem vacatePaneInTab (s : State) (tab channelId newId : String) :
    s.Keeps (s.vacatePaneInTab tab channelId newId) := by
  unfold State.vacatePaneInTab
  cases hroot : s.layout tab with
  | none => exact refl s
  | some root =>
    dsimp only
    split
    · exact refl s
    · exact takenOut hroot channelId _

theorem closePane (s : State) (channelId newId : String) : s.Keeps (s.closePane channelId newId) := by
  unfold State.closePane
  split
  · exact refl s
  next tab _ =>
  cases hroot : s.layout tab with
  | none => exact refl s
  | some root =>
    dsimp only
    split
    · exact refl s
    · exact (putLayout hroot _).trans (deleteActive _ tab)
    · split
      · exact refl s
      · exact takenOut hroot channelId _

theorem collapseActive (s : State) (find : PaneNode → Option (List Turn)) :
    s.Keeps (s.collapseActive find) := by
  unfold State.collapseActive
  split
  · exact refl s
  next tab root hactive =>
  split
  · exact refl s
  · exact putLayout (activeLayout_eq_some hactive).2 _

theorem splitPane (s : State) (channelId : String) (direction : Direction) (limit : ℕ)
    (newId : String) : s.Keeps (s.splitPane channelId direction limit newId).1 := by
  unfold State.splitPane
  split
  · exact refl s
  next tab root hactive =>
  have hput := fun root' => putLayout (activeLayout_eq_some hactive).2 root'
  split
  · exact refl s
  split
  · exact refl s
  split
  · exact refl s
  · exact hput _

theorem updateRatio (s : State) (path : List Turn) (ratio : ℚ) : s.Keeps (s.updateRatio path ratio) := by
  unfold State.updateRatio
  split
  · exact refl s
  next tab root hactive =>
  split
  · exact putLayout (activeLayout_eq_some hactive).2 _
  · exact refl s

theorem replaceChannelId (s : State) (oldId newId : String) :
    s.Keeps (s.replaceChannelId oldId newId) where
  layouts t ht := by
    obtain ⟨v, hv⟩ := (mem_keys_iff _ t).mp ht
    have hv : (s.layouts.mapValues (·.map (replaceInTree oldId newId))).get t = some v := hv
    rw [get_mapValues] at hv
    obtain ⟨u, hu, -⟩ := map_eq_some_iff.mp hv
    exact (mem_keys_iff _ t).mpr ⟨u, hu⟩
  panes _ ht := .inl ht

theorem fillVacant (s : State) (tabs : List String) (vacantId channelId newPaneId : String) :
    s.Keeps (s.fillVacant tabs vacantId channelId newPaneId) := by
  unfold State.fillVacant
  dsimp only
  split
  · exact refl s
  next tab root path hfound =>
  obtain ⟨hroot, -⟩ := findVacant_eq_some hfound
  refine (putLayout hroot _).trans (setActivePaneId ?_ newPaneId)
  exact mem_keys_set.mpr (.inl rfl)

theorem movePaneTo (s : State) (src pane target : String) (zone : DropZone)
    (vacantId newPaneId : String) :
    s.Keeps (s.movePaneTo src pane target zone vacantId newPaneId) := by
  unfold State.movePaneTo
  split
  · exact refl s
  next tab _ =>
  have hvacate := vacatePaneInTab s tab src vacantId
  dsimp only
  generalize s.vacatePaneInTab tab src vacantId = s₁ at hvacate ⊢
  cases hroot : s₁.layout target with
  | none => exact hvacate
  | some root =>
    dsimp only
    split
    · exact hvacate
    · refine hvacate.trans ((putLayout hroot _).trans (setActivePaneId ?_ newPaneId))
      exact mem_keys_set.mpr (.inl rfl)

end State.Keeps

/-! ### Every operation -/

theorem Layout.Sound.withPanes {l : Layout} {s : State} (h : l.Sound) (hs : l.panes.Keeps s) :
    (l.withPanes s).Sound ∧ KeepsFront none l (l.withPanes s) := by
  refine ⟨⟨h.nodup, fun t ht => h.layouts t (hs.layouts t ht), fun t ht => ?_, h.index⟩,
    fun t ht _ => ht⟩
  exact (hs.panes t ht).elim (h.panes t) (h.layouts t)

theorem Layout.Sound.perform {limit : ℕ} {w : Window} {op : Op} (h : w.layout.Sound)
    (hok : New w (.perform op)) :
    (w.layout.perform limit op).Sound ∧
      KeepsFront (op.brings w.layout) w.layout (w.layout.perform limit op) := by
  cases op with
  | openTab afterActive channelId newTabId newPaneId => exact h.openTab afterActive channelId hok newPaneId
  | openVacantTab afterActive newTabId newPaneId => exact h.addTab afterActive hok _ none
  | closeTab index => exact h.closeTab index
  | setActiveTab index => exact h.setActiveTab index
  | reorderTab fromIndex toIndex => exact h.reorderTab fromIndex toIndex
  | vacateAllPanesInTab tabId newId =>
    change (w.layout.vacateAllPanesInTab tabId newId).Sound ∧
      KeepsFront none w.layout (w.layout.vacateAllPanesInTab tabId newId)
    unfold Layout.vacateAllPanesInTab
    cases hroot : w.layout.layout tabId with
    | none => exact ⟨h, fun t ht _ => ht⟩
    | some root =>
      have hroot : w.layout.panes.layout tabId = some root := hroot
      exact h.withPanes ((State.Keeps.putLayout hroot _).trans (.deleteActive _ tabId))
  | closeOthers view keepIndex => exact h.closeOthers view keepIndex
  | closeToRight view fromIndex => exact h.closeToRight view fromIndex
  | closeAll view exceptWelcomeChannelId => exact h.closeAll view exceptWelcomeChannelId
  | moveToNewTab sourceChannelId insertAtIndex vacantId newTabId newPaneId =>
    change (w.layout.moveToNewTab sourceChannelId insertAtIndex vacantId newTabId newPaneId).Sound ∧
      KeepsFront ((w.layout.panes.findTabForChannel sourceChannelId).map fun _ => newTabId) w.layout
        (w.layout.moveToNewTab sourceChannelId insertAtIndex vacantId newTabId newPaneId)
    unfold Layout.moveToNewTab
    cases w.layout.panes.findTabForChannel sourceChannelId with
    | none => exact ⟨h, fun t ht _ => ht⟩
    | some tab =>
      obtain ⟨hvacated, -⟩ :=
        h.withPanes (State.Keeps.vacatePaneInTab w.layout.panes tab sourceChannelId vacantId)
      refine hvacated.insertTab ?_ hok _ _
      omega
  | setActivePaneId tabId paneId =>
    refine ⟨⟨h.nodup, h.layouts, fun t ht => ?_, h.index⟩, fun t ht _ => ht⟩
    rcases mem_keys_set.mp ht with rfl | ht
    · exact hok
    · exact h.panes t ht
  | setLayout node =>
    change (w.layout.withPanes (w.layout.panes.setLayout node)).Sound ∧
      KeepsFront none w.layout (w.layout.withPanes (w.layout.panes.setLayout node))
    unfold State.setLayout
    cases hactive : w.layout.panes.activeTab with
    | none => exact h.withPanes (.refl _)
    | some tab =>
      refine ⟨⟨h.nodup, fun t ht => ?_, h.panes, h.index⟩, fun t ht _ => ht⟩
      rcases mem_keys_set.mp ht with rfl | ht
      · exact Layout.Sound.activeTab_mem hactive
      · exact h.layouts t ht
  | splitPane channelId direction newId => exact h.withPanes (.splitPane _ channelId direction limit newId)
  | unsplitPane channelId => exact h.withPanes (.collapseActive _ _)
  | updateRatio splitNodePath ratio => exact h.withPanes (.updateRatio _ splitNodePath ratio)
  | replaceChannelId oldId newId => exact h.withPanes (.replaceChannelId _ oldId newId)
  | detachPane channelId newId =>
    refine h.withPanes ?_
    unfold State.detachPane State.vacatePane
    split
    · exact .refl _
    · exact .vacatePaneInTab _ _ channelId newId
  | closePane channelId newId => exact h.withPanes (.closePane _ channelId newId)
  | fillVacant vacantId channelId newPaneId =>
    exact h.withPanes (.fillVacant _ w.layout.tabs vacantId channelId newPaneId)
  | closeVacantPane vacantId =>
    change (w.layout.closeVacantPane vacantId).Sound ∧
      KeepsFront none w.layout (w.layout.closeVacantPane vacantId)
    unfold Layout.closeVacantPane
    split
    · exact ⟨h, fun t ht _ => ht⟩
    split
    · next tab _ _ =>
      cases w.layout.tabs.idxOf? tab with
      | none => exact ⟨h, fun t ht _ => ht⟩
      | some index => exact h.closeTab index
    · exact h.withPanes (.collapseActive _ _)
  | dropPane sourceChannelId targetPaneId targetTabId zone vacantId newPaneId =>
    change (w.layout.onDropPane sourceChannelId targetPaneId targetTabId zone vacantId newPaneId).Sound ∧
      KeepsFront none w.layout
        (w.layout.onDropPane sourceChannelId targetPaneId targetTabId zone vacantId newPaneId)
    unfold Layout.onDropPane
    split
    · exact ⟨h, fun t ht _ => ht⟩
    · exact h.withPanes (.movePaneTo _ sourceChannelId targetPaneId targetTabId zone vacantId newPaneId)

/-- **The index and the keys are those of tabs that are there** after any operations, and after
each the tab in front is the one it brings there, or the one that was, unless it closes it. -/
theorem tabs_sound (limit : ℕ) (w : Window) (h : Run (next limit) New Window.start w) :
    w.layout.Sound ∧
      (∀ op, New w (.perform op) →
        KeepsFront (op.brings w.layout) w.layout (w.layout.perform limit op)) ∧
      ∀ saved w', w.saved = some saved → next limit w .restore = some w' →
        saved.Sound ∧ w'.layout = saved := by
  have hnone : ∀ l ∈ Window.start.saved, l.Sound := nofun
  have hsound := Window.invariant (P := Layout.Sound) .empty
    (fun w op hw hok => (hw.perform hok).1) .empty hnone h
  refine ⟨hsound.1, fun op hok => (hsound.1.perform hok).2, fun saved w' hsaved hn => ?_⟩
  obtain ⟨rfl⟩ := hn
  refine ⟨hsound.2 saved hsaved, ?_⟩
  rw [hsaved]
  rfl

/-- Three tabs with a terminal each, the second in front. -/
def threeTabs : List Step :=
  [.perform (.openTab false "c1" "t1" "p1"), .perform (.openTab false "c2" "t2" "p2"),
    .perform (.openTab false "c3" "t3" "p3"), .perform (.setActiveTab 1)]

theorem tabs_sound_reordered : ∃ w, Run (next 4) New Window.start w ∧
    w.layout.activeTab = some "t2" ∧
    (w.layout.perform 4 (.reorderTab 2 0)).activeTab = some "t2" := by
  have hrun : Run (next 4) New Window.start _ :=
    .get threeTabs (by decide +kernel) (by decide +kernel)
  exact ⟨_, hrun, by decide +kernel, (tabs_sound 4 _ hrun).2.1 (.reorderTab 2 0) trivial "t2"
    (by decide +kernel) (by decide +kernel)⟩

/-- A tab that is opened is brought to the front, though the one that was there stays. -/
theorem opening_brings : ¬∀ (limit : ℕ) (w : Window), Run (next limit) New Window.start w →
    ∀ op, New w (.perform op) → ∀ tab, w.layout.activeTab = some tab →
      tab ∈ (w.layout.perform limit op).tabs → (w.layout.perform limit op).activeTab = some tab := by
  intro hall
  have hrun : Run (next 4) New Window.start _ :=
    .get threeTabs (by decide +kernel) (by decide +kernel)
  exact absurd (hall 4 _ hrun (.openTab false "c4" "t4" "p4") (by decide +kernel) "t2"
    (by decide +kernel) (by decide +kernel)) (by decide +kernel)

end Lasterm.Web
