import Mathlib.Algebra.BigOperators.Group.List.Basic
import Mathlib.Algebra.Order.Ring.Defs
import Mathlib.Data.List.Pairwise
import Mathlib.Tactic.Linarith
import Mathlib.Tactic.Ring

/-!
# Boxes cut by lines

A box in the plane is cut in two by a line across it, each part may be cut again, and so on.  The
boxes left are a dissection of the first.  They have disjoint interiors and cover it, so whatever
lies beside a box is found by looking at one point behind its border: the box that holds the point
begins at that border, or it would meet the box that ends there.

Everything is said of the right side.  A dissection turned over is one of the box turned over, so
the other three sides follow by `flip` and `transpose`.

## Main definitions

* `PlaneBox` — a box; `Meets`, `area`, `flip`, `transpose`.
* `Dissects b l` — the boxes `l` are what cuts of `b` leave.

## Main results

* `Dissects.disjoint`, `Dissects.area`, `Dissects.covers` — the boxes tile the first.
* `Dissects.exists_beside` — where a box ends before the border, another begins.
* `Dissects.exists_between` — and two boxes apart from each other have one between them.
* `Dissects.gap_cases` — so the gap is as wide as some box.
-/

/-- A box in the plane, its sides along the axes. -/
@[ext] structure PlaneBox (K : Type*) where
  left : K
  top : K
  right : K
  bottom : K
  deriving DecidableEq

namespace PlaneBox

open List

variable {K : Type*}

/-- The box with its axes exchanged. -/
def transpose (b : PlaneBox K) : PlaneBox K := ⟨b.top, b.left, b.bottom, b.right⟩

@[simp] theorem transpose_transpose (b : PlaneBox K) : b.transpose.transpose = b := rfl

section order

variable [LinearOrder K]

/-- The insides of two boxes have a point in common. -/
def Meets (a b : PlaneBox K) : Prop :=
  a.left < b.right ∧ b.left < a.right ∧ a.top < b.bottom ∧ b.top < a.bottom

instance (a b : PlaneBox K) : Decidable (a.Meets b) :=
  inferInstanceAs (Decidable (_ ∧ _))

theorem Meets.symm {a b : PlaneBox K} (h : a.Meets b) : b.Meets a :=
  ⟨h.2.1, h.1, h.2.2.2, h.2.2.1⟩

/-- A box within another. -/
structure Within (a b : PlaneBox K) : Prop where
  left : b.left ≤ a.left
  top : b.top ≤ a.top
  right : a.right ≤ b.right
  bottom : a.bottom ≤ b.bottom
  wide : a.left < a.right
  high : a.top < a.bottom

/-- What cuts of a box leave, in any order. -/
inductive Dissects : PlaneBox K → List (PlaneBox K) → Prop
  | whole (b : PlaneBox K) : b.left < b.right → b.top < b.bottom → Dissects b [b]
  | beside {b : PlaneBox K} {e : K} {l m : List (PlaneBox K)} : b.left < e → e < b.right →
    Dissects { b with right := e } l → Dissects { b with left := e } m → Dissects b (l ++ m)
  | above {b : PlaneBox K} {e : K} {l m : List (PlaneBox K)} : b.top < e → e < b.bottom →
    Dissects { b with bottom := e } l → Dissects { b with top := e } m → Dissects b (l ++ m)
  | perm {b : PlaneBox K} {l m : List (PlaneBox K)} : l.Perm m → Dissects b l → Dissects b m

namespace Dissects

variable {b : PlaneBox K} {l : List (PlaneBox K)} {r s : PlaneBox K}

section

variable (h : Dissects b l)
include h

theorem within (hr : r ∈ l) : r.Within b := by
  induction h with
  | whole b hw hh =>
    obtain rfl := mem_singleton.mp hr
    exact ⟨le_rfl, le_rfl, le_rfl, le_rfl, hw, hh⟩
  | beside hleft hright _ _ ihl ihm =>
    rcases mem_append.mp hr with h | h
    · have hin := ihl h
      exact ⟨hin.left, hin.top, hin.right.trans hright.le, hin.bottom, hin.wide, hin.high⟩
    · have hin := ihm h
      exact ⟨hleft.le.trans hin.left, hin.top, hin.right, hin.bottom, hin.wide, hin.high⟩
  | above htop hbottom _ _ ihl ihm =>
    rcases mem_append.mp hr with h | h
    · have hin := ihl h
      exact ⟨hin.left, hin.top, hin.right, hin.bottom.trans hbottom.le, hin.wide, hin.high⟩
    · have hin := ihm h
      exact ⟨hin.left, htop.le.trans hin.top, hin.right, hin.bottom, hin.wide, hin.high⟩
  | perm hperm _ ih => exact ih (hperm.mem_iff.mpr hr)

/-- The insides of the boxes are disjoint. -/
theorem disjoint : l.Pairwise fun r s => ¬r.Meets s := by
  induction h with
  | whole => exact pairwise_singleton _ _
  | beside _ _ hl hm ihl ihm =>
    refine pairwise_append.mpr ⟨ihl, ihm, fun r hr s hs hmeet => ?_⟩
    -- One ends at the cut, the other begins there.
    exact absurd ((hl.within hr).right.trans (hm.within hs).left) (not_le.mpr hmeet.2.1)
  | above _ _ hl hm ihl ihm =>
    refine pairwise_append.mpr ⟨ihl, ihm, fun r hr s hs hmeet => ?_⟩
    exact absurd ((hl.within hr).bottom.trans (hm.within hs).top) (not_le.mpr hmeet.2.2.2)
  | perm hperm _ ih => exact hperm.pairwise ih fun h hmeet => h hmeet.symm

theorem not_meets (hr : r ∈ l) (hs : s ∈ l) (hne : r ≠ s) : ¬r.Meets s := by
  have hsymm : Std.Symm fun r s : PlaneBox K => ¬r.Meets s := ⟨fun _ _ h hmeet => h hmeet.symm⟩
  exact h.disjoint.forall hr hs hne

/-- Every point of the box is in one of the boxes, where a box holds its left and upper border. -/
theorem covers {x y : K} (hx : b.left ≤ x ∧ x < b.right) (hy : b.top ≤ y ∧ y < b.bottom) :
    ∃ r ∈ l, (r.left ≤ x ∧ x < r.right) ∧ r.top ≤ y ∧ y < r.bottom := by
  induction h with
  | whole b => exact ⟨b, mem_singleton_self b, hx, hy⟩
  | @beside b e l m _ _ _ _ ihl ihm =>
    rcases lt_or_ge x e with hlt | hge
    · obtain ⟨r, hr, hin⟩ := ihl ⟨hx.1, hlt⟩ hy
      exact ⟨r, mem_append_left _ hr, hin⟩
    · obtain ⟨r, hr, hin⟩ := ihm ⟨hge, hx.2⟩ hy
      exact ⟨r, mem_append_right _ hr, hin⟩
  | @above b e l m _ _ _ _ ihl ihm =>
    rcases lt_or_ge y e with hlt | hge
    · obtain ⟨r, hr, hin⟩ := ihl hx ⟨hy.1, hlt⟩
      exact ⟨r, mem_append_left _ hr, hin⟩
    · obtain ⟨r, hr, hin⟩ := ihm hx ⟨hge, hy.2⟩
      exact ⟨r, mem_append_right _ hr, hin⟩
  | perm hperm _ ih =>
    obtain ⟨r, hr, hin⟩ := ih hx hy
    exact ⟨r, hperm.mem_iff.mp hr, hin⟩

/-- A box that ends before the border has, at each of its heights, one beside it. -/
theorem exists_beside (hr : r ∈ l) (hright : r.right < b.right) {y : K}
    (hy : r.top ≤ y ∧ y < r.bottom) : ∃ s ∈ l, s.left = r.right ∧ s.top ≤ y ∧ y < s.bottom := by
  have hin := h.within hr
  obtain ⟨s, hs, hx, hys⟩ := h.covers ⟨hin.left.trans hin.wide.le, hright⟩
    ⟨hin.top.trans hy.1, hy.2.trans_le hin.bottom⟩
  refine ⟨s, hs, ?_, hys⟩
  by_contra hne
  -- If it began before `r` ends, the two would meet.
  have hlt : s.left < r.right := lt_of_le_of_ne hx.1 hne
  have hrs : r ≠ s := fun heq => absurd hx.2 (heq ▸ lt_irrefl _)
  exact h.not_meets hr hs hrs
    ⟨hin.wide.trans hx.2, hlt, hy.1.trans_lt hys.2, hys.1.trans_lt hy.2⟩

/-- Two boxes with a height in common and a gap between them have a box in the gap. -/
theorem exists_between (hr : r ∈ l) (hs : s ∈ l) (htop : r.top < s.bottom)
    (hbottom : s.top < r.bottom) (hgap : r.right < s.left) :
    ∃ t ∈ l, t.left = r.right ∧ t.right ≤ s.left := by
  have hin := h.within hs
  obtain ⟨t, ht, hleft, hty⟩ := h.exists_beside hr (hgap.trans (hin.wide.trans_le hin.right))
    ⟨le_max_left r.top s.top, max_lt (h.within hr).high hbottom⟩
  refine ⟨t, ht, hleft, ?_⟩
  by_contra hlt
  have hts : t ≠ s := fun heq => absurd (hleft ▸ hgap) (heq ▸ lt_irrefl _)
  refine h.not_meets ht hs hts
    ⟨hleft ▸ hgap.trans hin.wide, not_le.mp hlt, ?_, (le_max_right _ _).trans_lt hty.2⟩
  exact hty.1.trans_lt (max_lt htop hin.high)

theorem transpose : Dissects b.transpose (l.map PlaneBox.transpose) := by
  induction h with
  | whole b hw hh => exact .whole _ hh hw
  | beside hleft hright _ _ ihl ihm =>
    rw [map_append]
    exact .above hleft hright ihl ihm
  | above htop hbottom _ _ ihl ihm =>
    rw [map_append]
    exact .beside htop hbottom ihl ihm
  | perm hperm _ ih => exact .perm (hperm.map _) ih

end

end Dissects

end order

section ring

variable [CommRing K]

/-- How wide a box is. -/
def width (b : PlaneBox K) : K := b.right - b.left

/-- How high a box is. -/
def height (b : PlaneBox K) : K := b.bottom - b.top

/-- The area of a box. -/
def area (b : PlaneBox K) : K := b.width * b.height

/-- The box seen from behind: left is right. -/
def flip (b : PlaneBox K) : PlaneBox K := ⟨-b.right, b.top, -b.left, b.bottom⟩

@[simp] theorem width_flip (b : PlaneBox K) : b.flip.width = b.width := by
  simp only [width, flip]
  ring

@[simp] theorem height_flip (b : PlaneBox K) : b.flip.height = b.height := rfl

@[simp] theorem width_transpose (b : PlaneBox K) : b.transpose.width = b.height := rfl

@[simp] theorem height_transpose (b : PlaneBox K) : b.transpose.height = b.width := rfl

variable [LinearOrder K] {b : PlaneBox K} {l : List (PlaneBox K)}

namespace Dissects

/-- The areas of the boxes add up. -/
theorem area (h : Dissects b l) : (l.map PlaneBox.area).sum = b.area := by
  induction h with
  | whole => simp
  | beside _ _ _ _ ihl ihm | above _ _ _ _ ihl ihm =>
    rw [map_append, sum_append, ihl, ihm]
    simp only [PlaneBox.area, width, height]
    ring
  | perm hperm _ ih => rw [← ih, (hperm.map _).sum_eq]

variable [IsStrictOrderedRing K]

theorem flip (h : Dissects b l) : Dissects b.flip (l.map PlaneBox.flip) := by
  induction h with
  | whole b hw hh => exact .whole _ (neg_lt_neg hw) hh
  | beside hleft hright _ _ ihl ihm =>
    rw [map_append]
    exact .perm perm_append_comm (.beside (neg_lt_neg hright) (neg_lt_neg hleft) ihm ihl)
  | above htop hbottom _ _ ihl ihm =>
    rw [map_append]
    exact .above htop hbottom ihl ihm
  | perm hperm _ ih => exact .perm (hperm.map _) ih

/-- Where no box is as thin as `2 * ε`, one of those beside a box shares more than `ε` of its
side. -/
theorem exists_beside_thick (h : Dissects b l) {ε : K} (hε : 0 ≤ ε)
    (hthick : ∀ t ∈ l, 2 * ε < t.height) {r : PlaneBox K} (hr : r ∈ l)
    (hright : r.right < b.right) :
    ∃ s ∈ l, s.left = r.right ∧ ε < min r.bottom s.bottom - max r.top s.top := by
  have hrthick := hthick r hr
  rw [height] at hrthick
  obtain ⟨s, hs, hleft, htop, hbottom⟩ := h.exists_beside hr hright (y := r.top + ε)
    ⟨by linarith, by linarith⟩
  have hsthick := hthick s hs
  rw [height] at hsthick
  refine ⟨s, hs, hleft, ?_⟩
  rw [lt_sub_iff_add_lt, lt_min_iff]
  rcases le_total s.top r.top with hle | hle
  · rw [max_eq_left hle]
    exact ⟨by linarith, by linarith⟩
  · rw [max_eq_right hle]
    exact ⟨by linarith, by linarith⟩

/-- Where every box is wider than `w`, one box begins where another at the same height ends, or more
than `w` away from there. -/
theorem gap_cases (h : Dissects b l) {w : K} (hw : 0 ≤ w) (hwide : ∀ t ∈ l, w < t.width)
    {r s : PlaneBox K} (hr : r ∈ l) (hs : s ∈ l) (hno : ¬r.Meets s) (htop : r.top < s.bottom)
    (hbottom : s.top < r.bottom) :
    s.left = r.right ∨ w < s.left - r.right ∨ s.left - r.right < -w := by
  have hrwide := hwide r hr
  have hswide := hwide s hs
  rw [width] at hrwide hswide
  rcases lt_trichotomy s.left r.right with hlt | heq | hgt
  · have hleft : s.right ≤ r.left := by
      by_contra hmeet
      exact hno ⟨not_le.mp hmeet, hlt, htop, hbottom⟩
    exact .inr (.inr (by linarith))
  · exact .inl heq
  · obtain ⟨t, ht, htleft, htright⟩ := h.exists_between hr hs htop hbottom hgt
    have htwide := hwide t ht
    rw [width] at htwide
    exact .inr (.inl (by linarith))

end Dissects

end ring

end PlaneBox
