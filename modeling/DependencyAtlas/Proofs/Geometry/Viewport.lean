import DependencyAtlas.Proofs.Geometry.Bounds
import Mathlib.Tactic.NormNum

set_option autoImplicit false

namespace DependencyAtlas

def Bounds.Flat (b : Bounds ℚ) : Prop := b.width ≤ 0 ∧ b.height ≤ 0

def Bounds.Extended (b : Bounds ℚ) : Prop := 0 < b.width ∨ 0 < b.height

-- No larger than the room for it, and as large on one of the axes on which it extends.
structure Bounds.Fills (b : Bounds ℚ) (factor across down : ℚ) : Prop where
  width_le : factor * b.width ≤ across
  height_le : factor * b.height ≤ down
  touches : 0 < b.width ∧ factor * b.width = across ∨ 0 < b.height ∧ factor * b.height = down

namespace Bounds

variable {b : Bounds ℚ} {factor other across down : ℚ} {points : Set (Point ℚ)}
  {q : Point ℚ} {z : Zoom}

theorem flat_or_extended (b : Bounds ℚ) : b.Flat ∨ b.Extended := by
  rcases le_or_gt b.width 0 with narrow | wide
  · exact (le_or_gt b.height 0).imp (And.intro narrow) .inr
  · exact .inr (.inl wide)

theorem Extended.zoom (extended : b.Extended) (forward : 0 < z.factor) : (b.zoom z).Extended := by
  simpa [Extended, mul_pos_iff_of_pos_left forward] using extended

theorem Fills.le (first : b.Fills factor across down) (second : b.Fills other across down) :
    factor ≤ other := by
  rcases second.touches with ⟨wide, filled⟩ | ⟨tall, filled⟩
  · exact le_of_mul_le_mul_right (first.width_le.trans_eq filled.symm) wide
  · exact le_of_mul_le_mul_right (first.height_le.trans_eq filled.symm) tall

theorem Fills.unique (first : b.Fills factor across down) (second : b.Fills other across down) :
    factor = other :=
  le_antisymm (first.le second) (second.le first)

theorem Fills.nonneg (fills : b.Fills factor across down) (ha : 0 ≤ across) (hd : 0 ≤ down) :
    0 ≤ factor := by
  rcases fills.touches with ⟨wide, filled⟩ | ⟨tall, filled⟩
  · exact nonneg_of_mul_nonneg_left (ha.trans_eq filled.symm) wide
  · exact nonneg_of_mul_nonneg_left (hd.trans_eq filled.symm) tall

theorem Fills.of_zoom (fills : (b.zoom z).Fills factor across down) (forward : 0 < z.factor) :
    b.Fills (factor * z.factor) across down := by
  obtain ⟨width_le, height_le, touches⟩ := fills
  simp only [width_zoom, height_zoom, ← mul_assoc, mul_pos_iff_of_pos_left forward]
    at width_le height_le touches
  exact ⟨width_le, height_le, touches⟩

theorem Around.eq_center (around : b.Around points) (flat : b.Flat) (hq : q ∈ points) :
    q = b.center := by
  obtain ⟨narrow, low⟩ := flat
  obtain ⟨left, right⟩ := around.x_mem hq
  obtain ⟨bottom, top⟩ := around.y_mem hq
  unfold width at narrow
  unfold height at low
  obtain ⟨x, y⟩ := q
  simp only [center, Scalar.two_rat, Point.mk.injEq] at *
  constructor <;> linarith

theorem Around.extended (around : b.Around points) {r : Point ℚ} (hq : q ∈ points)
    (hr : r ∈ points) (apart : q ≠ r) : b.Extended :=
  b.flat_or_extended.resolve_left fun flat =>
    apart ((around.eq_center flat hq).trans (around.eq_center flat hr).symm)

theorem Around.within (around : b.Around points) {width height gap : ℚ}
    (middle : b.center = ⟨width / 2, height / 2⟩) (across : b.width ≤ width - 2 * gap)
    (down : b.height ≤ height - 2 * gap) (hq : q ∈ points) :
    q.x ∈ Set.Icc gap (width - gap) ∧ q.y ∈ Set.Icc gap (height - gap) := by
  obtain ⟨left, right⟩ := around.x_mem hq
  obtain ⟨bottom, top⟩ := around.y_mem hq
  simp only [center, Scalar.two_rat, Point.mk.injEq, Bounds.width, Bounds.height]
    at middle across down
  obtain ⟨x, y⟩ := middle
  constructor <;> constructor <;> linarith

end Bounds

namespace Positions

open Scalar

variable {p : Positions ℚ} {b : Bounds ℚ} {width height margin : ℚ} {points : Set (Point ℚ)}
  {q : Point ℚ} {z : Zoom}

theorem inner_nonneg (side margin : ℚ) : 0 ≤ inner side margin := by
  simp [inner]

theorem inner_eq {side : ℚ} (room : 2 * margin ≤ side) : inner side margin = side - 2 * margin := by
  simp [inner, room]

theorem inner_le {side : ℚ} (positive : 0 < side) (outer : 0 ≤ margin) : inner side margin ≤ side := by
  simp [inner, positive.le, outer]

theorem stretch?_eq_some_iff {extent room factor : ℚ} :
    stretch? extent room = some factor ↔ 0 < extent ∧ factor * extent = room := by
  unfold stretch?
  by_cases long : 0 < extent
  · rw [if_pos ((positive_rat _).2 long), Option.some.injEq, div_eq_iff long.ne', eq_comm]
    exact (and_iff_right long).symm
  · simp [long]

theorem stretch?_eq_none_iff {extent room : ℚ} : stretch? extent room = none ↔ extent ≤ 0 := by
  simp [stretch?]

theorem scale_fills (around : b.Around points) (extended : b.Extended) :
    b.Fills (scale b width height margin) (inner width margin) (inner height margin) := by
  unfold scale
  cases across : stretch? b.width (inner width margin) with
  | none =>
    have narrow := le_antisymm (stretch?_eq_none_iff.1 across) around.width_nonneg
    cases down : stretch? b.height (inner height margin) with
    | none => exact absurd extended (by simp [Bounds.Extended, narrow, stretch?_eq_none_iff.1 down])
    | some s =>
      obtain ⟨tall, filled⟩ := stretch?_eq_some_iff.1 down
      exact ⟨by simp [narrow, inner_nonneg], filled.le, .inr ⟨tall, filled⟩⟩
  | some s =>
    obtain ⟨wide, filled⟩ := stretch?_eq_some_iff.1 across
    cases down : stretch? b.height (inner height margin) with
    | none =>
      have low := le_antisymm (stretch?_eq_none_iff.1 down) around.height_nonneg
      exact ⟨filled.le, by simp [low, inner_nonneg], .inl ⟨wide, filled⟩⟩
    | some t =>
      obtain ⟨tall, filled'⟩ := stretch?_eq_some_iff.1 down
      simp only [least_rat]
      rcases le_total s t with le | le
      · rw [min_eq_left le]
        exact ⟨filled.le, (mul_le_mul_of_nonneg_right le tall.le).trans_eq filled',
          .inl ⟨wide, filled⟩⟩
      · rw [min_eq_right le]
        exact ⟨(mul_le_mul_of_nonneg_right le wide.le).trans_eq filled, filled'.le,
          .inr ⟨tall, filled'⟩⟩

theorem scale_of_flat (flat : b.Flat) : scale b width height margin = 1 := by
  rw [scale, stretch?_eq_none_iff.2 flat.1, stretch?_eq_none_iff.2 flat.2]
  rfl

theorem scale_le (around : b.Around points) :
    scale b width height margin * b.width ≤ inner width margin ∧
      scale b width height margin * b.height ≤ inner height margin := by
  rcases b.flat_or_extended with flat | extended
  · rw [scale_of_flat flat, one_mul, one_mul]
    exact ⟨flat.1.trans (inner_nonneg _ _), flat.2.trans (inner_nonneg _ _)⟩
  · exact ⟨(scale_fills around extended).width_le, (scale_fills around extended).height_le⟩

theorem scale_nonneg (around : b.Around points) : 0 ≤ scale b width height margin := by
  rcases b.flat_or_extended with flat | extended
  · rw [scale_of_flat flat]
    exact zero_le_one
  · exact (scale_fills around extended).nonneg (inner_nonneg _ _) (inner_nonneg _ _)

theorem scale_zoom (around : b.Around points) (extended : b.Extended) (forward : 0 < z.factor) :
    scale (b.zoom z) width height margin * z.factor = scale b width height margin := by
  have zoomed : (b.zoom z).Fills (scale (b.zoom z) width height margin) (inner width margin)
      (inner height margin) := scale_fills (around.zoom forward.le) (extended.zoom forward)
  exact (zoomed.of_zoom forward).unique (scale_fills around extended)

def fitting (b : Bounds ℚ) (width height margin : ℚ) : Zoom where
  factor := scale b width height margin
  shift := ⟨width / 2 - scale b width height margin * b.center.x,
    height / 2 - scale b width height margin * b.center.y⟩

theorem zoom_fitting (q : Point ℚ) :
    q.zoom (fitting b width height margin) =
      place b.center ⟨width / 2, height / 2⟩ (scale b width height margin) q := by
  simp only [Point.zoom, fitting, place, Point.mk.injEq]
  constructor <;> ring

theorem zoom_fitting_center :
    b.center.zoom (fitting b width height margin) = ⟨width / 2, height / 2⟩ := by
  simp [zoom_fitting, place]

theorem fit_eq_zoom (found : p.bounds? = some b) :
    p.fit width height margin = p.zoom (fitting b width height margin) := by
  simp only [fit, found, zoom, zoom_fitting]
  rfl

theorem fit_of_none (none : p.bounds? = none) : p.fit width height margin = ∅ := by
  simp only [fit, none]

theorem zoom_zoom {first second whole : Zoom}
    (same : ∀ q ∈ p.points, (q.zoom first).zoom second = q.zoom whole) :
    (p.zoom first).zoom second = p.zoom whole := by
  refine Std.ExtTreeMap.ext_getElem? fun id => ?_
  simp only [zoom, Std.ExtTreeMap.getElem?_map]
  cases found : p[id]? with
  | none => rfl
  | some q => exact congrArg some (same q (mem_points.2 ⟨id, found⟩))

-- If the box has no extent, the factors differ, but then every point is its center.
theorem zoom_fitting_zoom (around : b.Around points) (forward : 0 < z.factor) (hq : q ∈ points) :
    (q.zoom z).zoom (fitting (b.zoom z) width height margin) =
      q.zoom (fitting b width height margin) := by
  rcases b.flat_or_extended with flat | extended
  · rw [around.eq_center flat hq, ← Bounds.center_zoom, zoom_fitting_center, zoom_fitting_center]
  · rw [zoom_fitting, zoom_fitting, Bounds.center_zoom, ← scale_zoom around extended forward]
    simp only [place, Point.zoom, Point.mk.injEq]
    constructor <;> ring

theorem fit_zoom (p : Positions ℚ) (width height margin : ℚ) (forward : 0 < z.factor) :
    (p.zoom z).fit width height margin = p.fit width height margin := by
  cases found : p.bounds? with
  | none =>
    rw [bounds?_eq_none_iff.1 found]
    rfl
  | some b =>
    rw [fit_eq_zoom (bounds?_zoom forward.le found), fit_eq_zoom found]
    exact zoom_zoom fun q hq => zoom_fitting_zoom (around_of_bounds? found) forward hq

theorem bounds?_fit (found : p.bounds? = some b) :
    (p.fit width height margin).bounds? = some (b.zoom (fitting b width height margin)) := by
  rw [fit_eq_zoom found]
  exact bounds?_zoom (scale_nonneg (around_of_bounds? found)) found

-- Scaled to nothing, the points are all in the middle, where fitting leaves them.
theorem fit_of_flat (found : p.bounds? = some b) (flat : b.Flat)
    (middle : b.center = ⟨width / 2, height / 2⟩) : p.fit width height margin = p := by
  refine Std.ExtTreeMap.ext_getElem? fun id => ?_
  rw [fit_eq_zoom found, zoom, Std.ExtTreeMap.getElem?_map]
  cases at_id : p[id]? with
  | none => rfl
  | some q =>
    have center := (around_of_bounds? found).eq_center flat (mem_points.2 ⟨id, at_id⟩)
    rw [center, Option.map_some, zoom_fitting_center, middle]

theorem center_fit :
    (b.zoom (fitting b width height margin)).center = ⟨width / 2, height / 2⟩ := by
  rw [Bounds.center_zoom, zoom_fitting_center]

theorem within_of_mem_fit {gap : ℚ} (found : p.bounds? = some b)
    (across : inner width margin ≤ width - 2 * gap)
    (down : inner height margin ≤ height - 2 * gap)
    (hq : q ∈ (p.fit width height margin).points) :
    q.x ∈ Set.Icc gap (width - gap) ∧ q.y ∈ Set.Icc gap (height - gap) := by
  obtain ⟨width_le, height_le⟩ := scale_le (around_of_bounds? found)
  refine (around_of_bounds? (bounds?_fit found)).within center_fit ?_ ?_ hq
  · rw [Bounds.width_zoom]
    exact width_le.trans across
  · rw [Bounds.height_zoom]
    exact height_le.trans down

theorem fit_fills_viewport (p : Positions ℚ) (width height margin : ℚ) (placed : p ≠ ∅)
    (wide : 0 < width) (tall : 0 < height) (outer : 0 ≤ margin) :
    let fitted := p.fit width height margin
    fitted.keys = p.keys ∧
    (∃ z : Zoom, 0 ≤ z.factor ∧ fitted = p.zoom z) ∧
    (∀ q ∈ fitted.points, q.x ∈ Set.Icc 0 width ∧ q.y ∈ Set.Icc 0 height) ∧
    ∃ box, fitted.bounds? = some box ∧ box.center = ⟨width / 2, height / 2⟩ ∧
      (2 * margin ≤ width → 2 * margin ≤ height →
        (∀ q ∈ fitted.points,
          q.x ∈ Set.Icc margin (width - margin) ∧ q.y ∈ Set.Icc margin (height - margin)) ∧
        ((∃ q ∈ p.points, ∃ r ∈ p.points, q ≠ r) →
          box.width = width - 2 * margin ∨ box.height = height - 2 * margin)) := by
  intro fitted
  obtain ⟨b, found⟩ := Option.ne_none_iff_exists'.1 (mt bounds?_eq_none_iff.1 placed)
  have around := around_of_bounds? found
  have image : fitted = p.zoom (fitting b width height margin) := fit_eq_zoom found
  refine ⟨?_, ⟨fitting b width height margin, scale_nonneg around, image⟩, ?_,
    b.zoom (fitting b width height margin), bounds?_fit found, center_fit, ?_⟩
  · rw [image, zoom, Std.ExtTreeMap.keys_map]
  · intro q hq
    have across : inner width margin ≤ width - 2 * 0 := by simpa using inner_le wide outer
    have down : inner height margin ≤ height - 2 * 0 := by simpa using inner_le tall outer
    simpa using within_of_mem_fit found across down hq
  · intro across down
    have across := inner_eq across
    have down := inner_eq down
    refine ⟨fun q hq => within_of_mem_fit found across.le down.le hq, ?_⟩
    rintro ⟨q, hq, r, hr, apart⟩
    rw [Bounds.width_zoom, Bounds.height_zoom, ← across, ← down]
    exact (scale_fills around (around.extended hq hr apart)).touches.imp And.right And.right

def sketch : Positions ℚ := (Std.ExtTreeMap.insert ∅ "a" ⟨0, 0⟩).insert "b" ⟨10, 5⟩

theorem sketch_fills_viewport :
    sketch ≠ ∅ ∧ (0 : ℚ) < 220 ∧ (0 : ℚ) < 100 ∧ (0 : ℚ) ≤ 10 ∧
      (sketch.fit 220 100 10).toList = [("a", ⟨30, 10⟩), ("b", ⟨190, 90⟩)] ∧
      ∃ box, (sketch.fit 220 100 10).bounds? = some box ∧ box.center = ⟨110, 50⟩ ∧
        (∀ q ∈ (sketch.fit 220 100 10).points,
          q.x ∈ Set.Icc 10 210 ∧ q.y ∈ Set.Icc 10 90) ∧
        (box.width = 200 ∨ box.height = 80) := by
  have placed : sketch ≠ ∅ := by decide +kernel
  have two : ∃ q ∈ sketch.points, ∃ r ∈ sketch.points, q ≠ r := by decide +kernel
  obtain ⟨-, -, -, box, found, center, inside⟩ := fit_fills_viewport sketch 220 100 10 placed
    (by norm_num) (by norm_num) (by norm_num)
  obtain ⟨within, filled⟩ := inside (by norm_num) (by norm_num)
  refine ⟨placed, by norm_num, by norm_num, by norm_num, by decide +kernel, box, found, ?_, ?_, ?_⟩
  · norm_num [center]
  · intro q hq
    have here := within q hq
    norm_num at here
    exact here
  · have full := filled two
    norm_num at full
    exact full

theorem fit_canonical (p : Positions ℚ) (width height margin : ℚ) :
    (∀ z : Zoom, 0 < z.factor → (p.zoom z).fit width height margin = p.fit width height margin) ∧
    (p.fit width height margin).fit width height margin = p.fit width height margin := by
  refine ⟨fun z => fit_zoom p width height margin, ?_⟩
  cases found : p.bounds? with
  | none =>
    rw [fit_of_none found]
    rfl
  | some b =>
    rcases (scale_nonneg (around_of_bounds? found)).lt_or_eq with forward | nothing
    · calc (p.fit width height margin).fit width height margin
          = (p.zoom (fitting b width height margin)).fit width height margin := by
            rw [fit_eq_zoom found]
        _ = p.fit width height margin := fit_zoom p width height margin forward
    · have flat : (b.zoom (fitting b width height margin)).Flat := by
        simp [Bounds.Flat, fitting, ← nothing]
      exact fit_of_flat (bounds?_fit found) flat center_fit

-- The margins leave nothing of the viewport.
theorem sketch_canonical :
    let z : Zoom := ⟨3, ⟨-4, 7⟩⟩
    0 < z.factor ∧
      (sketch.zoom z).toList = [("a", ⟨-4, 7⟩), ("b", ⟨26, 22⟩)] ∧
      (sketch.fit 220 100 110).toList = [("a", ⟨110, 50⟩), ("b", ⟨110, 50⟩)] ∧
      (sketch.zoom z).fit 220 100 110 = sketch.fit 220 100 110 ∧
      (sketch.fit 220 100 110).fit 220 100 110 = sketch.fit 220 100 110 := by
  intro z
  have forward : 0 < z.factor := by norm_num [z]
  obtain ⟨forgotten, kept⟩ := fit_canonical sketch 220 100 110
  exact ⟨forward, by decide +kernel, by decide +kernel, forgotten z forward, kept⟩

end Positions

end DependencyAtlas
