import Lasterm.Lib.Dissection
import Lasterm.Web.Layout
import Mathlib.Algebra.Order.Floor.Defs
import Mathlib.Data.Rat.Floor

/-!
# Where the panes of a tab are

`utils/pane-geometry.ts`: a tab's area is cut by the splits of its tree.  From the rectangles the
keys find the pane on a side of another, and from the path to a pane the divider they move.  What is
true on one side of a pane is true on each: `view` turns a direction into the right.

Numbers are exact here.  The code takes edges to be the same, and a shared border to be none, up to
`epsilon`; where no pane is thinner than two of them that changes nothing.

## Main results

* `paneRects_dissects` — the rectangles are what cuts of the area leave.
* `paneInDirection_spec` — which pane is found on a side, and when none is.
* `pane_geometry`, `thin_and_outer` — all of it, and what is not promised.
-/

namespace Lasterm.Web

open PaneNode List

/-- The direction of a key. -/
inductive PaneDirection
  | left
  | right
  | up
  | down
  deriving DecidableEq

/-- `PANE_RESIZE_STEP`. -/
def paneResizeStep : ℚ := 1 / 20

/-- `EPSILON`. -/
def epsilon : ℚ := 1 / 10 ^ 9

/-- A leaf of the tree, and the path that reaches it. -/
structure PaneLeaf where
  id : String
  node : PaneNode
  path : List Turn

/-- Every leaf, in the order the tree holds them. -/
def paneLeaves : PaneNode → List Turn → List PaneLeaf
  | .split _ _ first second, path =>
    paneLeaves first (path ++ [.first]) ++ paneLeaves second (path ++ [.second])
  | leaf, path => [⟨leaf.getLeafId.getD "", leaf, path⟩]

/-- A pane's rectangle, in the tab's area. -/
structure PaneRect extends PlaneBox ℚ where
  id : String

/-- Each leaf's rectangle, in tree order. -/
def paneRects : PaneNode → PlaneBox ℚ → List PaneRect
  | .split direction ratio first second, area =>
    match direction with
    | .vertical =>
      let edge := area.left + (area.right - area.left) * ratio
      paneRects first { area with right := edge } ++ paneRects second { area with left := edge }
    | .horizontal =>
      let edge := area.top + (area.bottom - area.top) * ratio
      paneRects first { area with bottom := edge } ++ paneRects second { area with top := edge }
  | leaf, area => [⟨area, leaf.getLeafId.getD ""⟩]

/-- The whole of a tab. -/
def unitArea : PlaneBox ℚ := ⟨0, 0, 1, 1⟩

/-- How far `to` lies beyond `source` towards the direction, or none when it is not on that side. -/
def gapTowards (source target : PlaneBox ℚ) (direction : PaneDirection) : Option ℚ :=
  let gap :=
    match direction with
    | .left => source.left - target.right
    | .right => target.left - source.right
    | .up => source.top - target.bottom
    | .down => target.top - source.bottom
  if -epsilon ≤ gap then some (max 0 gap) else none

/-- How much two rectangles share along the axis across the direction. -/
def overlapAcross (a b : PlaneBox ℚ) (direction : PaneDirection) : ℚ :=
  if direction = .left ∨ direction = .right then min a.bottom b.bottom - max a.top b.top
  else min a.right b.right - max a.left b.left

/-- The best pane found so far. -/
structure Best where
  id : String
  gap : ℚ
  overlap : ℚ

/-- Whether a pane at this distance, with this much of the side, is better than the best so far. -/
def isBetter (best : Option Best) (gap overlap : ℚ) : Bool :=
  match best with
  | none => true
  | some b =>
    gap < b.gap - epsilon || (|gap - b.gap| ≤ epsilon && b.overlap + epsilon < overlap)

/-- The body of the loop over the rectangles. -/
def consider (source : PaneRect) (direction : PaneDirection) (best : Option Best)
    (rect : PaneRect) : Option Best :=
  if rect.id = source.id then best
  else
    match gapTowards source.toPlaneBox rect.toPlaneBox direction with
    | none => best
    | some gap =>
      let overlap := overlapAcross source.toPlaneBox rect.toPlaneBox direction
      if overlap ≤ epsilon then best
      else if isBetter best gap overlap then some ⟨rect.id, gap, overlap⟩
      else best

/-- The pane Alt+arrow moves the focus to. -/
def paneInDirection (root : PaneNode) (sourceId : String) (direction : PaneDirection) :
    Option String :=
  let rects := paneRects root unitArea
  (rects.find? fun rect => rect.id = sourceId).bind fun source =>
    (rects.foldl (consider source direction) none).map Best.id

/-- `nodeAt`, which is what the tree's own `getNodeAtPath` is. -/
abbrev nodeAt (root : PaneNode) (path : List Turn) : Option PaneNode := root.getNodeAtPath path

/-- The axis of the dividers a key moves. -/
def axisOf (direction : PaneDirection) : Direction :=
  if direction = .left ∨ direction = .right then .vertical else .horizontal

/-- A divider on the pane's right or lower side belongs to a split holding the pane first. -/
def turnOnThatSide (direction : PaneDirection) : Turn :=
  if direction = .right ∨ direction = .down then .first else .second

/-- Whether a path leads to a split across the axis. -/
def isDivider (root : PaneNode) (axis : Direction) (path : List Turn) : Bool :=
  match nodeAt root path with
  | some (.split direction _ _ _) => direction = axis
  | _ => false

/-- The loop over the splits that hold a pane, from the innermost: `depth` are left. -/
def findDivider (root : PaneNode) (path : List Turn) (direction : PaneDirection) :
    ℕ → Option (List Turn) → Option (List Turn)
  | 0, fallback => fallback
  | depth + 1, fallback =>
    let splitPath := path.take depth
    if !isDivider root (axisOf direction) splitPath then
      findDivider root path direction depth fallback
    else if path[depth]? = some (turnOnThatSide direction) then some splitPath
    else findDivider root path direction depth (fallback.or (some splitPath))

/-- `Math.round`. -/
def mathRound (x : ℚ) : ℤ := ⌊x + 1 / 2⌋

/-- A divider, and where it goes. -/
structure Resize where
  path : List Turn
  ratio : ℚ
  deriving DecidableEq

/-- What Alt+Shift+arrow does: the split whose divider moves, and its new ratio. -/
def resizeTowards (root : PaneNode) (paneId : String) (direction : PaneDirection) (step : ℚ) :
    Option Resize :=
  ((paneLeaves root []).find? fun leaf => leaf.id = paneId).bind fun leaf =>
    (findDivider root leaf.path direction leaf.path.length none).bind fun path =>
      match nodeAt root path with
      | some (.split _ ratio _ _) =>
        let towards := if direction = .right ∨ direction = .down then step else -step
        let ratio' := (mathRound ((ratio + towards) * 10 ^ 6) : ℚ) / 10 ^ 6
        some ⟨path, clampSplitRatio ratio'⟩
      | _ => none

/-! ### The rectangles -/

/-- Every ratio of a tree is between 0 and 1. -/
def Ratios : PaneNode → Prop
  | .split _ ratio first second => (0 < ratio ∧ ratio < 1) ∧ Ratios first ∧ Ratios second
  | _ => True

variable {root : PaneNode}

/-- **The rectangles are what cuts of the area leave.** -/
theorem paneRects_dissects (h : Ratios root) {area : PlaneBox ℚ}
    (hw : area.left < area.right) (hh : area.top < area.bottom) :
    PlaneBox.Dissects area ((paneRects root area).map PaneRect.toPlaneBox) := by
  induction root generalizing area with
  | terminal | vacant => exact .whole area hw hh
  | split direction ratio first second ihf ihs =>
    obtain ⟨⟨hpos, hone⟩, hfirst, hsecond⟩ := h
    cases direction with
    | vertical =>
      have hleft : area.left < area.left + (area.right - area.left) * ratio :=
        lt_add_of_pos_right _ (mul_pos (sub_pos.mpr hw) hpos)
      have hright : area.left + (area.right - area.left) * ratio < area.right := by
        nlinarith [mul_pos (sub_pos.mpr hw) (sub_pos.mpr hone)]
      rw [paneRects, map_append]
      exact .beside hleft hright (ihf hfirst hleft hh) (ihs hsecond hright hh)
    | horizontal =>
      have htop : area.top < area.top + (area.bottom - area.top) * ratio :=
        lt_add_of_pos_right _ (mul_pos (sub_pos.mpr hh) hpos)
      have hbottom : area.top + (area.bottom - area.top) * ratio < area.bottom := by
        nlinarith [mul_pos (sub_pos.mpr hh) (sub_pos.mpr hone)]
      rw [paneRects, map_append]
      exact .above htop hbottom (ihf hfirst hw htop) (ihs hsecond hw hbottom)

theorem unit_dissects (h : Ratios root) :
    PlaneBox.Dissects unitArea ((paneRects root unitArea).map PaneRect.toPlaneBox) :=
  paneRects_dissects h (by decide +kernel) (by decide +kernel)

/-! ### One direction for four -/

/-- A box seen so that the direction is the right. -/
def view : PaneDirection → PlaneBox ℚ → PlaneBox ℚ
  | .left, b => b.flip
  | .right, b => b
  | .up, b => b.transpose.flip
  | .down, b => b.transpose

theorem dissects_view {b : PlaneBox ℚ} {l : List (PlaneBox ℚ)} (h : PlaneBox.Dissects b l)
    (direction : PaneDirection) :
    PlaneBox.Dissects (view direction b) (l.map (view direction)) := by
  cases direction with
  | left => exact h.flip
  | right => exact (map_id l).symm ▸ h
  | up =>
    have hup := h.transpose.flip
    rw [map_map] at hup
    exact hup
  | down => exact h.transpose

theorem gapTowards_eq (a b : PlaneBox ℚ) (direction : PaneDirection) :
    gapTowards a b direction =
      if -epsilon ≤ (view direction b).left - (view direction a).right then
        some (max 0 ((view direction b).left - (view direction a).right))
      else none := by
  cases direction <;> simp [gapTowards, view, PlaneBox.flip, PlaneBox.transpose, neg_add_eq_sub]

theorem overlapAcross_eq (a b : PlaneBox ℚ) (direction : PaneDirection) :
    overlapAcross a b direction =
      min (view direction a).bottom (view direction b).bottom -
        max (view direction a).top (view direction b).top := by
  cases direction <;> simp [overlapAcross, view, PlaneBox.flip, PlaneBox.transpose]

theorem meets_view (a b : PlaneBox ℚ) (direction : PaneDirection) :
    (view direction a).Meets (view direction b) ↔ a.Meets b := by
  cases direction <;>
    simp only [PlaneBox.Meets, view, PlaneBox.flip, PlaneBox.transpose, neg_lt_neg_iff] <;> tauto

/-! ### The search -/

/-- A pane on that side that shares enough of the side. -/
structure Candidate (direction : PaneDirection) (source rect : PaneRect) (gap overlap : ℚ) :
    Prop where
  other : rect.id ≠ source.id
  gap_eq : gapTowards source.toPlaneBox rect.toPlaneBox direction = some gap
  overlap_eq : overlapAcross source.toPlaneBox rect.toPlaneBox direction = overlap
  shares : epsilon < overlap

section

variable (direction : PaneDirection)
include direction

theorem consider_cases (source : PaneRect) (best : Option Best)
    (rect : PaneRect) :
    (∃ gap overlap, Candidate direction source rect gap overlap ∧
      consider source direction best rect =
        if isBetter best gap overlap then some ⟨rect.id, gap, overlap⟩ else best) ∨
    (∀ gap overlap, ¬Candidate direction source rect gap overlap) ∧
      consider source direction best rect = best := by
  unfold consider
  by_cases hid : rect.id = source.id
  · exact .inr ⟨fun _ _ h => h.other hid, if_pos hid⟩
  · rw [if_neg hid]
    cases hgap : gapTowards source.toPlaneBox rect.toPlaneBox direction with
    | none => exact .inr ⟨fun _ _ h => absurd (hgap.symm.trans h.gap_eq) nofun, rfl⟩
    | some gap =>
      by_cases hle : overlapAcross source.toPlaneBox rect.toPlaneBox direction ≤ epsilon
      · refine .inr ⟨fun _ _ h => ?_, if_pos hle⟩
        exact absurd h.shares (not_lt.mpr (h.overlap_eq ▸ hle))
      · exact .inl ⟨gap, _, ⟨hid, hgap, rfl, not_le.mp hle⟩, if_neg hle⟩

/-- What the search has found among `rects`. -/
structure Found (direction : PaneDirection) (source : PaneRect) (rects : List PaneRect)
    (best : Option Best) : Prop where
  mem : ∀ b, best = some b →
    ∃ rect ∈ rects, rect.id = b.id ∧ Candidate direction source rect b.gap b.overlap
  empty : best = none → ∀ rect ∈ rects, ∀ gap overlap, ¬Candidate direction source rect gap overlap
  /-- Where there is a candidate at no distance, the best is at none. -/
  near : ∀ rect ∈ rects, ∀ overlap, Candidate direction source rect 0 overlap →
    ∃ b, best = some b ∧ b.gap = 0

/-- Where a candidate is at no distance or at more than the tolerance, the loop finds the best. -/
theorem foldl_found (source : PaneRect) (rects : List PaneRect)
    (hgap : ∀ rect ∈ rects, ∀ gap overlap, Candidate direction source rect gap overlap →
      gap = 0 ∨ epsilon < gap) :
    Found direction source rects (rects.foldl (consider source direction) none) := by
  induction rects using reverseRecOn with
  | nil =>
    exact ⟨nofun, fun _ _ h => absurd h not_mem_nil, fun _ h => absurd h not_mem_nil⟩
  | append_singleton rects rect ih =>
    have hfound := ih fun rect' h => hgap rect' (mem_append_left _ h)
    have hlast := hgap rect (mem_append_right _ (mem_singleton_self rect))
    rw [foldl_append, foldl_cons, foldl_nil]
    generalize rects.foldl (consider source direction) none = best at hfound ⊢
    have hold : ∀ b, best = some b → ∃ rect' ∈ rects ++ [rect], rect'.id = b.id ∧
        Candidate direction source rect' b.gap b.overlap := by
      intro b hb
      obtain ⟨rect', hmem, hcand⟩ := hfound.mem b hb
      exact ⟨rect', mem_append_left _ hmem, hcand⟩
    rcases consider_cases direction source best rect with ⟨gap, overlap, hcand, heq⟩ | ⟨hno, heq⟩
    · -- A candidate: its gap and its overlap are those of no other pair.
      have honly : ∀ gap' overlap', Candidate direction source rect gap' overlap' → gap' = gap :=
        fun gap' overlap' h => Option.some.inj (h.gap_eq.symm.trans hcand.gap_eq)
      rw [heq]
      cases hb : isBetter best gap overlap with
      | true =>
        rw [if_pos rfl]
        refine ⟨?_, nofun, fun rect' hmem overlap' hzero => ⟨_, rfl, ?_⟩⟩
        · rintro b ⟨rfl⟩
          exact ⟨rect, mem_append_right _ (mem_singleton_self rect), rfl, hcand⟩
        · rcases hlast gap overlap hcand with hgap0 | hfar
          · exact hgap0
          · rcases mem_append.mp hmem with hin | hin
            · -- The best so far is at no distance, so this one is not better.
              obtain ⟨b, rfl, hb0⟩ := hfound.near rect' hin overlap' hzero
              have hpos : 0 < epsilon := by decide +kernel
              simp only [isBetter, hb0, Bool.or_eq_true, Bool.and_eq_true, decide_eq_true_eq,
                sub_zero, zero_sub] at hb
              rcases hb with hlt | ⟨habs, -⟩
              · linarith
              · exact absurd ((le_abs_self gap).trans habs) (not_le.mpr hfar)
            · obtain rfl := mem_singleton.mp hin
              exact (honly 0 overlap' hzero).symm
      | false =>
        rw [if_neg Bool.false_ne_true]
        refine ⟨hold, ?_, fun rect' hmem overlap' hzero => ?_⟩
        · rintro rfl
          exact absurd hb nofun
        · rcases mem_append.mp hmem with hin | hin
          · exact hfound.near rect' hin overlap' hzero
          · obtain rfl := mem_singleton.mp hin
            obtain rfl : gap = 0 := (honly 0 overlap' hzero).symm
            cases best with
            | none => exact absurd hb nofun
            | some b =>
              refine ⟨b, rfl, ?_⟩
              obtain ⟨rect'', hmem'', -, hcand''⟩ := hfound.mem b rfl
              simp only [isBetter, Bool.or_eq_false_iff, decide_eq_false_iff_not] at hb
              rcases hgap rect'' (mem_append_left _ hmem'') _ _ hcand'' with h0 | hfar
              · exact h0
              · exact absurd (sub_pos.mpr hfar) hb.1
    · rw [heq]
      refine ⟨hold, fun hnone rect' hmem => ?_, fun rect' hmem overlap' hzero => ?_⟩
      · rcases mem_append.mp hmem with hin | hin
        · exact hfound.empty hnone rect' hin
        · obtain rfl := mem_singleton.mp hin
          exact hno
      · rcases mem_append.mp hmem with hin | hin
        · exact hfound.near rect' hin overlap' hzero
        · obtain rfl := mem_singleton.mp hin
          exact absurd hzero (hno 0 overlap')

/-! ### The pane on a side -/

/-- No pane is as thin as the tolerance: each is more than two of it wide and high. -/
def Thick (root : PaneNode) : Prop :=
  ∀ rect ∈ paneRects root unitArea, 2 * epsilon < rect.width ∧ 2 * epsilon < rect.height

/-- A rectangle reaches the edge of the tab on that side. -/
def Touches : PaneDirection → PlaneBox ℚ → Prop
  | .left, b => b.left = 0
  | .right, b => b.right = 1
  | .up, b => b.top = 0
  | .down, b => b.bottom = 1

/-- One rectangle begins where the other ends on that side. -/
def Follows : PaneDirection → PlaneBox ℚ → PlaneBox ℚ → Prop
  | .left, a, b => b.right = a.left
  | .right, a, b => b.left = a.right
  | .up, a, b => b.bottom = a.top
  | .down, a, b => b.top = a.bottom

/-- Two rectangles share a border of positive length on that side of the first. -/
def Borders (direction : PaneDirection) (a b : PlaneBox ℚ) : Prop :=
  Follows direction a b ∧ 0 < overlapAcross a b direction

theorem touches_iff (b : PlaneBox ℚ) :
    Touches direction b ↔ (view direction b).right = (view direction unitArea).right := by
  cases direction <;> simp [Touches, view, PlaneBox.flip, PlaneBox.transpose, unitArea]

theorem follows_iff (a b : PlaneBox ℚ) :
    Follows direction a b ↔ (view direction b).left = (view direction a).right := by
  cases direction <;> simp [Follows, view, PlaneBox.flip, PlaneBox.transpose]

end

theorem thick_view (h : Thick root) (direction : PaneDirection) {b : PlaneBox ℚ}
    (hb : b ∈ ((paneRects root unitArea).map PaneRect.toPlaneBox).map (view direction)) :
    2 * epsilon < b.width ∧ 2 * epsilon < b.height := by
  obtain ⟨b', hb', rfl⟩ := mem_map.mp hb
  obtain ⟨rect, hrect, rfl⟩ := mem_map.mp hb'
  have hthick := h rect hrect
  cases direction <;> simpa [view, and_comm] using hthick

section neighbour

variable {root : PaneNode} {source rect : PaneRect} {direction : PaneDirection}

theorem epsilon_pos : 0 < epsilon := by decide +kernel

theorem dissects_boxes (h : Ratios root) (direction : PaneDirection) :
    PlaneBox.Dissects (view direction unitArea)
      (((paneRects root unitArea).map PaneRect.toPlaneBox).map (view direction)) :=
  dissects_view (unit_dissects h) direction

theorem mem_boxes (hs : source ∈ paneRects root unitArea) (direction : PaneDirection) :
    view direction source.toPlaneBox ∈
      ((paneRects root unitArea).map PaneRect.toPlaneBox).map (view direction) :=
  mem_map_of_mem (mem_map_of_mem hs)

theorem panes_disjoint (h : Ratios root) (hs : source ∈ paneRects root unitArea)
    (hr : rect ∈ paneRects root unitArea) (hne : rect.id ≠ source.id) :
    ¬source.toPlaneBox.Meets rect.toPlaneBox := by
  have hpairs := pairwise_map.mp (unit_dissects h).disjoint
  have hsymm : Std.Symm fun r s : PaneRect => ¬r.toPlaneBox.Meets s.toPlaneBox :=
    ⟨fun _ _ hno hmeet => hno hmeet.symm⟩
  exact hpairs.forall hs hr fun heq => hne (heq ▸ rfl)

theorem candidate_gap (h : Ratios root) (hthick : Thick root)
    (hs : source ∈ paneRects root unitArea) (hr : rect ∈ paneRects root unitArea) {gap overlap : ℚ}
    (hc : Candidate direction source rect gap overlap) :
    gap = 0 ∧ Follows direction source.toPlaneBox rect.toPlaneBox ∨ epsilon < gap := by
  have hpos := epsilon_pos
  have hno := (meets_view _ _ direction).not.mpr (panes_disjoint h hs hr hc.other)
  -- They share a height, for they share more than the tolerance.
  have hover := hc.overlap_eq ▸ hc.shares
  rw [overlapAcross_eq] at hover
  have hrows : max (view direction source.toPlaneBox).top (view direction rect.toPlaneBox).top <
      min (view direction source.toPlaneBox).bottom (view direction rect.toPlaneBox).bottom := by
    linarith
  rw [max_lt_iff, lt_min_iff, lt_min_iff] at hrows
  have hgap := hc.gap_eq
  rw [gapTowards_eq] at hgap
  obtain ⟨hside, hgap⟩ := Option.ite_none_right_eq_some.mp hgap
  have hmax := Option.some.inj hgap
  rcases (dissects_boxes h direction).gap_cases (w := 2 * epsilon) (by linarith)
    (fun t ht => (thick_view hthick direction ht).1) (mem_boxes hs direction)
    (mem_boxes hr direction) hno hrows.1.2 hrows.2.1 with heq | hfar | hbehind
  · refine .inl ⟨?_, (follows_iff ..).mpr heq⟩
    rw [← hmax, heq, sub_self, max_self]
  · refine .inr ?_
    rw [← hmax]
    exact lt_max_of_lt_right (by linarith)
  · exact absurd hside (not_le.mpr (by linarith))

theorem exists_candidate (h : Ratios root) (hthick : Thick root)
    (hids : ((paneRects root unitArea).map PaneRect.id).Nodup)
    (hs : source ∈ paneRects root unitArea) (ht : ¬Touches direction source.toPlaneBox) :
    ∃ rect ∈ paneRects root unitArea, ∃ overlap, Candidate direction source rect 0 overlap := by
  have hpos := epsilon_pos
  have hd := dissects_boxes h direction
  have hright : (view direction source.toPlaneBox).right < (view direction unitArea).right :=
    lt_of_le_of_ne (hd.within (mem_boxes hs direction)).right fun heq =>
      ht ((touches_iff ..).mpr heq)
  obtain ⟨b, hb, hleft, hover⟩ := hd.exists_beside_thick hpos.le
    (fun t ht => (thick_view hthick direction ht).2) (mem_boxes hs direction) hright
  obtain ⟨b', hb', rfl⟩ := mem_map.mp hb
  obtain ⟨rect, hrect, rfl⟩ := mem_map.mp hb'
  refine ⟨rect, hrect, _, ⟨fun hid => ?_, ?_, rfl, ?_⟩⟩
  · -- It begins where the pane ends, so it is another.
    obtain rfl := inj_on_of_nodup_map hids hrect hs hid
    exact absurd hleft (ne_of_lt (hd.within (mem_boxes hs direction)).wide)
  · rw [gapTowards_eq, hleft, sub_self, if_pos (neg_nonpos.mpr hpos.le), max_self]
  · rw [overlapAcross_eq]
    exact hover

theorem not_candidate (h : Ratios root) (hthick : Thick root)
    (hr : rect ∈ paneRects root unitArea) (ht : Touches direction source.toPlaneBox)
    (gap overlap : ℚ) : ¬Candidate direction source rect gap overlap := by
  intro hc
  have hpos := epsilon_pos
  have hedge := (touches_iff ..).mp ht
  have hright := ((dissects_boxes h direction).within (mem_boxes hr direction)).right
  have hthin := (thick_view hthick direction (mem_boxes hr direction)).1
  rw [PlaneBox.width] at hthin
  have hside := hc.gap_eq
  rw [gapTowards_eq] at hside
  have hle := (Option.ite_none_right_eq_some.mp hside).1
  exact absurd hle (not_le.mpr (by linarith))

/-- **The pane found on a side shares a border with the pane, and none is found exactly where the
pane reaches the edge.** -/
theorem paneInDirection_spec (h : Ratios root) (hthick : Thick root)
    (hids : ((paneRects root unitArea).map PaneRect.id).Nodup)
    (hs : source ∈ paneRects root unitArea) (direction : PaneDirection) :
    (paneInDirection root source.id direction = none ↔ Touches direction source.toPlaneBox) ∧
      ∀ id, paneInDirection root source.id direction = some id →
        ∃ rect ∈ paneRects root unitArea, rect.id = id ∧ rect.id ≠ source.id ∧
          Borders direction source.toPlaneBox rect.toPlaneBox := by
  have hfind : (paneRects root unitArea).find? (fun rect => rect.id = source.id) = some source := by
    cases hfind : (paneRects root unitArea).find? fun rect => rect.id = source.id with
    | none => simpa using find?_eq_none.mp hfind source hs
    | some rect =>
      have hid : rect.id = source.id := by simpa using find?_some hfind
      rw [inj_on_of_nodup_map hids (mem_of_find?_eq_some hfind) hs hid]
  have hfound := foldl_found direction source (paneRects root unitArea)
    fun rect hr gap overlap hc => (candidate_gap h hthick hs hr hc).imp_left And.left
  unfold paneInDirection
  simp only [hfind, Option.bind_some]
  generalize (paneRects root unitArea).foldl (consider source direction) none = best at hfound ⊢
  refine ⟨⟨fun hnone => ?_, fun ht => ?_⟩, fun id hid => ?_⟩
  · by_contra ht
    obtain ⟨rect, hrect, overlap, hc⟩ := exists_candidate h hthick hids hs ht
    exact hfound.empty (Option.map_eq_none_iff.mp hnone) rect hrect 0 overlap hc
  · cases best with
    | none => rfl
    | some b =>
      obtain ⟨rect, hrect, -, hc⟩ := hfound.mem b rfl
      exact absurd hc (not_candidate h hthick hrect ht _ _)
  · obtain ⟨b, rfl, rfl⟩ := Option.map_eq_some_iff.mp hid
    obtain ⟨rect, hrect, hrid, hc⟩ := hfound.mem b rfl
    have ht : ¬Touches direction source.toPlaneBox := fun ht =>
      not_candidate h hthick hrect ht _ _ hc
    refine ⟨rect, hrect, hrid, hc.other, ?_, ?_⟩
    · obtain ⟨rect', hrect', overlap, hc'⟩ := exists_candidate h hthick hids hs ht
      obtain ⟨b', ⟨⟩, hb0⟩ := hfound.near rect' hrect' overlap hc'
      rcases candidate_gap h hthick hs hrect hc with ⟨-, hfollows⟩ | hfar
      · exact hfollows
      · exact absurd (hb0 ▸ hfar) (not_lt.mpr epsilon_pos.le)
    · exact hc.overlap_eq ▸ epsilon_pos.trans hc.shares

end neighbour

/-! ### The divider that moves -/

/-- The split a path leads to: how it lies, and its ratio. -/
def splitAt (root : PaneNode) (path : List Turn) : Option (Direction × ℚ) :=
  match nodeAt root path with
  | some (.split direction ratio _ _) => some (direction, ratio)
  | _ => none

section divider

variable (root : PaneNode) (path : List Turn) (direction : PaneDirection)

/-- The split that holds a pane at this depth is cut across the axis of the direction. -/
def Crosses (depth : ℕ) : Prop := isDivider root (axisOf direction) (path.take depth) = true

/-- And its divider is on that side of the pane. -/
def LiesTowards (depth : ℕ) : Prop :=
  Crosses root path direction depth ∧ path[depth]? = some (turnOnThatSide direction)

/-- The divider that moves: of those on that side of the pane the nearest, and where there is none
the nearest of that axis. -/
structure Moves (depth : ℕ) : Prop where
  lt : depth < path.length
  crosses : Crosses root path direction depth
  nearest : LiesTowards root path direction depth ∧
      (∀ other, depth < other → other < path.length → ¬LiesTowards root path direction other) ∨
    (∀ other < path.length, ¬LiesTowards root path direction other) ∧
      ∀ other, depth < other → other < path.length → ¬Crosses root path direction other

/-- What the loop knows when `depth` splits are left. -/
structure Scanned (depth : ℕ) (fallback : Option (List Turn)) : Prop where
  none_towards : ∀ other, depth ≤ other → other < path.length →
    ¬LiesTowards root path direction other
  empty : fallback = none →
    ∀ other, depth ≤ other → other < path.length → ¬Crosses root path direction other
  mem : ∀ splitPath, fallback = some splitPath →
    ∃ nearest, nearest < path.length ∧ splitPath = path.take nearest ∧
      Crosses root path direction nearest ∧
      ∀ other, nearest < other → other < path.length → ¬Crosses root path direction other

variable {root path direction}

theorem findDivider_spec (depth : ℕ) {fallback : Option (List Turn)} (hle : depth ≤ path.length)
    (h : Scanned root path direction depth fallback) :
    (∀ splitPath, findDivider root path direction depth fallback = some splitPath →
      ∃ depth', splitPath = path.take depth' ∧ Moves root path direction depth') ∧
    (findDivider root path direction depth fallback = none →
      ∀ other < path.length, ¬Crosses root path direction other) := by
  induction depth generalizing fallback with
  | zero =>
    refine ⟨fun splitPath hs => ?_, fun hnone other => h.empty hnone other (Nat.zero_le _)⟩
    obtain ⟨nearest, hlt, rfl, hcrosses, hnear⟩ := h.mem splitPath hs
    exact ⟨nearest, rfl, hlt, hcrosses,
      .inr ⟨fun other => h.none_towards other (Nat.zero_le _), hnear⟩⟩
  | succ depth ih =>
    have hlt : depth < path.length := hle
    -- One more depth that is known.
    have hsplit : ∀ {P : ℕ → Prop}, ¬P depth →
        (∀ other, depth + 1 ≤ other → other < path.length → ¬P other) →
          ∀ other, depth ≤ other → other < path.length → ¬P other := by
      intro P hno hrest other hother hlen
      rcases Nat.eq_or_lt_of_le hother with rfl | hgt
      · exact hno
      · exact hrest other hgt hlen
    rw [findDivider]
    cases hd : isDivider root (axisOf direction) (path.take depth) with
    | false =>
      have hno : ¬Crosses root path direction depth := fun hc => absurd (hd.symm.trans hc) nofun
      rw [Bool.not_false, if_pos rfl]
      exact ih hlt.le ⟨hsplit (fun ht => hno ht.1) h.none_towards,
        fun hnone => hsplit hno (h.empty hnone), h.mem⟩
    | true =>
      rw [Bool.not_true, if_neg Bool.false_ne_true]
      by_cases hturn : path[depth]? = some (turnOnThatSide direction)
      · rw [if_pos hturn]
        refine ⟨?_, nofun⟩
        rintro splitPath ⟨rfl⟩
        exact ⟨depth, rfl, hlt, hd, .inl ⟨⟨hd, hturn⟩, fun other hgt => h.none_towards other hgt⟩⟩
      · rw [if_neg hturn]
        refine ih hlt.le ⟨hsplit (fun ht => hturn ht.2) h.none_towards, fun hnone => ?_,
          fun splitPath hs => ?_⟩
        · cases fallback <;> exact absurd hnone nofun
        · cases hf : fallback with
          | none =>
            rw [hf] at hs
            cases hs
            exact ⟨depth, hlt, rfl, hd, fun other hgt => h.empty hf other hgt⟩
          | some q =>
            rw [hf] at hs
            exact h.mem splitPath (hf.trans hs)

variable (root path direction) in
theorem findDivider_start :
    (∀ splitPath, findDivider root path direction path.length none = some splitPath →
      ∃ depth, splitPath = path.take depth ∧ Moves root path direction depth) ∧
    (findDivider root path direction path.length none = none →
      ∀ other < path.length, ¬Crosses root path direction other) :=
  findDivider_spec path.length le_rfl
    ⟨fun _ hle hlt => absurd hlt (not_lt.mpr hle), fun _ _ hle hlt => absurd hlt (not_lt.mpr hle),
      nofun⟩

end divider

theorem isDivider_iff {axis : Direction} {path : List Turn} :
    isDivider root axis path = true ↔ ∃ ratio first second,
      nodeAt root path = some (.split axis ratio first second) := by
  unfold isDivider
  split
  · next direction ratio first second heq =>
    rw [heq]
    simp [eq_comm]
  · next hno =>
    refine ⟨nofun, ?_⟩
    rintro ⟨ratio, first, second, heq⟩
    exact (hno _ _ _ _ heq).elim

theorem clampSplitRatio_mem (ratio : ℚ) :
    1 / 10 ≤ clampSplitRatio ratio ∧ clampSplitRatio ratio ≤ 9 / 10 :=
  ⟨le_min (by norm_num) (le_max_left _ _), min_le_left _ _⟩

theorem clampSplitRatio_of_mem {ratio : ℚ} (h : 1 / 10 ≤ ratio ∧ ratio ≤ 9 / 10) :
    clampSplitRatio ratio = ratio := by
  rw [clampSplitRatio, max_eq_right h.1, min_eq_right h.2]

@[simp] theorem splitAt_first {d : Direction} {r : ℚ} {f s : PaneNode} {path : List Turn} :
    splitAt (.split d r f s) (.first :: path) = splitAt f path := rfl

@[simp] theorem splitAt_second {d : Direction} {r : ℚ} {f s : PaneNode} {path : List Turn} :
    splitAt (.split d r f s) (.second :: path) = splitAt s path := rfl

theorem splitAt_setRatio {path : List Turn} {direction : Direction} {ratio : ℚ}
    {first second : PaneNode} (h : nodeAt root path = some (.split direction ratio first second))
    (ratio' : ℚ) :
    (∀ path', splitAt (root.setNodeAtPath path (.split direction ratio' first second)) path' =
      if path' = path then some (direction, ratio') else splitAt root path') ∧
      (root.setNodeAtPath path (.split direction ratio' first second)).leaves = root.leaves := by
  induction path generalizing root with
  | nil =>
    obtain rfl : root = .split direction ratio first second := by
      cases root <;> exact Option.some.inj h
    refine ⟨fun path' => ?_, rfl⟩
    cases path' with
    | nil => rfl
    | cons turn rest => cases turn <;> rfl
  | cons turn path ih =>
    cases root with
    | terminal | vacant => exact absurd h nofun
    | split d r f s =>
      -- The other half, and the split itself, are as they were.
      cases turn with
      | first =>
        have hf : nodeAt f path = some (.split direction ratio first second) := h
        obtain ⟨hsplit, hleaves⟩ := ih hf
        refine ⟨fun path' => ?_, congrArg (· ++ s.leaves) hleaves⟩
        cases path' with
        | nil => rfl
        | cons turn' rest =>
          cases turn' with
          | first => simpa [setNodeAtPath] using hsplit rest
          | second => simp [setNodeAtPath]
      | second =>
        have hs : nodeAt s path = some (.split direction ratio first second) := h
        obtain ⟨hsplit, hleaves⟩ := ih hs
        refine ⟨fun path' => ?_, congrArg (f.leaves ++ ·) hleaves⟩
        cases path' with
        | nil => rfl
        | cons turn' rest =>
          cases turn' with
          | first => simp [setNodeAtPath]
          | second => simpa [setNodeAtPath] using hsplit rest

/-! ### What the keys do -/

/-- What Alt+Shift+arrow does to a tree: the divider that moves stays within its bounds, and is the
only one whose ratio changes. -/
structure Resizes (root : PaneNode) (leaf : PaneLeaf) (direction : PaneDirection) (c : Resize) :
    Prop where
  /-- It is the nearest on that side, or else the nearest of the axis. -/
  moves : ∃ depth, c.path = leaf.path.take depth ∧ Moves root leaf.path direction depth
  bounds : 1 / 10 ≤ c.ratio ∧ c.ratio ≤ 9 / 10
  only : ∀ (s : State) tabId, s.activeLayout = some (tabId, root) →
    ∃ root', s.updateRatio c.path c.ratio = s.putLayout tabId root' ∧ root'.leaves = root.leaves ∧
      ∀ path, splitAt root' path =
        if path = c.path then some (axisOf direction, c.ratio) else splitAt root path

theorem resizeTowards_spec {paneId : String} {leaf : PaneLeaf}
    (hleaf : (paneLeaves root []).find? (fun leaf => leaf.id = paneId) = some leaf)
    (direction : PaneDirection) (step : ℚ) :
    (resizeTowards root paneId direction step = none ↔
      ∀ depth < leaf.path.length, ¬Crosses root leaf.path direction depth) ∧
      ∀ c, resizeTowards root paneId direction step = some c → Resizes root leaf direction c := by
  obtain ⟨hsome, hnone⟩ := findDivider_start root leaf.path direction
  unfold resizeTowards
  simp only [hleaf, Option.bind_some]
  cases hfind : findDivider root leaf.path direction leaf.path.length none with
  | none => exact ⟨iff_of_true rfl (hnone hfind), nofun⟩
  | some path =>
    obtain ⟨depth, rfl, hmoves⟩ := hsome path hfind
    obtain ⟨ratio, first, second, hnode⟩ := isDivider_iff.mp hmoves.crosses
    simp only [Option.bind_some, hnode]
    refine ⟨iff_of_false nofun fun hno => hno depth hmoves.lt hmoves.crosses, ?_⟩
    rintro c ⟨rfl⟩
    refine ⟨⟨depth, rfl, hmoves⟩, clampSplitRatio_mem _, fun s tabId hs => ?_⟩
    obtain ⟨hsplit, hleaves⟩ := splitAt_setRatio hnode
      (clampSplitRatio (clampSplitRatio
        ((mathRound ((ratio + if direction = .right ∨ direction = .down then step else -step) *
          10 ^ 6) : ℚ) / 10 ^ 6)))
    refine ⟨_, ?_, hleaves, ?_⟩
    · simp only [State.updateRatio, hs, hnode]
    · intro path
      rw [hsplit path, clampSplitRatio_of_mem (clampSplitRatio_mem _)]

/-- **The panes of a tree tile the tab.  Where none is as thin as the tolerance, the keys find a
pane that shares a border with the pane, and none exactly at the edge.  The divider they move is the
nearest on that side, or else the nearest of that axis, and stays within its bounds.** -/
theorem pane_geometry {root : PaneNode} (h : Ratios root) :
    (((paneRects root unitArea).map PaneRect.toPlaneBox).Pairwise (fun r s => ¬r.Meets s) ∧
      (((paneRects root unitArea).map PaneRect.toPlaneBox).map PlaneBox.area).sum = 1 ∧
      ∀ rect ∈ paneRects root unitArea, rect.toPlaneBox.Within unitArea) ∧
    (Thick root → ((paneRects root unitArea).map PaneRect.id).Nodup →
      ∀ source ∈ paneRects root unitArea, ∀ direction,
        (paneInDirection root source.id direction = none ↔ Touches direction source.toPlaneBox) ∧
          ∀ id, paneInDirection root source.id direction = some id →
            ∃ rect ∈ paneRects root unitArea, rect.id = id ∧ rect.id ≠ source.id ∧
              Borders direction source.toPlaneBox rect.toPlaneBox) ∧
    ∀ paneId leaf, (paneLeaves root []).find? (fun leaf => leaf.id = paneId) = some leaf →
      ∀ direction step,
        (resizeTowards root paneId direction step = none ↔
          ∀ depth < leaf.path.length, ¬Crosses root leaf.path direction depth) ∧
          ∀ c, resizeTowards root paneId direction step = some c →
            Resizes root leaf direction c := by
  have hd := unit_dissects h
  refine ⟨⟨hd.disjoint, ?_, fun rect hr => hd.within (mem_map_of_mem hr)⟩,
    fun hthick hids source hs => paneInDirection_spec h hthick hids hs,
    fun paneId leaf hleaf => resizeTowards_spec hleaf⟩
  rw [hd.area]
  decide +kernel

/-- Two panes side by side. -/
def halves : PaneNode := .split .vertical (1 / 2) (.terminal "x" "a") (.vacant "b")

/-- The left one has nothing on its left, and the other on its right. -/
theorem pane_geometry_halves :
    (paneInDirection halves "a" .left = none ↔ Touches .left ⟨0, 0, 1 / 2, 1⟩) ∧
      ∃ rect ∈ paneRects halves unitArea, rect.id = "b" ∧ rect.id ≠ "a" ∧
        Borders .right ⟨0, 0, 1 / 2, 1⟩ rect.toPlaneBox := by
  have hrects : paneRects halves unitArea = [⟨⟨0, 0, 1 / 2, 1⟩, "a"⟩, ⟨⟨1 / 2, 0, 1, 1⟩, "b"⟩] := by
    simp [halves, paneRects, unitArea, getLeafId]
  have hthick : Thick halves := by
    rw [Thick, hrects]
    intro rect hrect
    simp only [mem_cons, not_mem_nil, or_false] at hrect
    rcases hrect with rfl | rfl <;> norm_num [epsilon, PlaneBox.width, PlaneBox.height]
  have hratios : Ratios halves := ⟨⟨by norm_num, by norm_num⟩, trivial, trivial⟩
  have hpane := (pane_geometry hratios).2.1 hthick (by rw [hrects]; decide)
    ⟨⟨0, 0, 1 / 2, 1⟩, "a"⟩ (hrects ▸ mem_cons_self)
  exact ⟨(hpane .left).1, (hpane .right).2 "b" (by decide +kernel)⟩

/-- A pane lower than the tolerance has another on its right and none is found, and where there are
two dividers the nearest that holds the pane is not the one that moves. -/
theorem thin_and_outer :
    let thin : PaneNode := .split .horizontal (1 / 10 ^ 10)
      (.split .vertical (1 / 2) (.vacant "a") (.vacant "b")) (.vacant "c")
    let columns : PaneNode := .split .vertical (1 / 2) (.vacant "a")
      (.split .vertical (1 / 2) (.vacant "b") (.vacant "c"))
    (Ratios thin ∧ paneInDirection thin "a" .right = none ∧
      ⟨⟨0, 0, 1 / 2, 1 / 10 ^ 10⟩, "a"⟩ ∈ paneRects thin unitArea) ∧
    (Ratios columns ∧ isDivider columns .vertical [.second] = true ∧
      (paneLeaves columns []).map PaneLeaf.path =
        [[.first], [.second, .first], [.second, .second]] ∧
      resizeTowards columns "b" .left paneResizeStep = some ⟨[], 9 / 20⟩) := by
  intro thin columns
  refine ⟨⟨⟨⟨by norm_num, by norm_num⟩, ⟨⟨by norm_num, by norm_num⟩, trivial, trivial⟩, trivial⟩,
    by decide +kernel, ?_⟩, ⟨⟨by norm_num, by norm_num⟩, trivial, ⟨by norm_num, by norm_num⟩,
    trivial, trivial⟩, by decide +kernel, by decide +kernel, by decide +kernel⟩
  simp [thin, paneRects, unitArea, getLeafId]

end Lasterm.Web
