import DependencyAtlas.Geometry
import Mathlib.Algebra.Order.Field.Rat
import Mathlib.Order.Bounds.Image
import Mathlib.Tactic.Linarith
import Mathlib.Tactic.Ring

set_option autoImplicit false

namespace DependencyAtlas

structure Zoom where
  factor : Rat
  shift : Point Rat
deriving DecidableEq, Repr

def Point.zoom (q : Point Rat) (z : Zoom) : Point Rat :=
  ⟨z.factor * q.x + z.shift.x, z.factor * q.y + z.shift.y⟩

def Bounds.zoom (b : Bounds Rat) (z : Zoom) : Bounds Rat := ⟨b.low.zoom z, b.high.zoom z⟩

def Positions.zoom (p : Positions Rat) (z : Zoom) : Positions Rat := p.map fun _ q => q.zoom z

namespace Scalar

@[simp] theorem two_rat : (two : ℚ) = 2 := rfl

@[simp] theorem one_rat : (one : ℚ) = 1 := rfl

@[simp] theorem positive_rat (x : ℚ) : positive x ↔ 0 < x := decide_eq_true_iff

@[simp] theorem least_rat (a b : ℚ) : least a b = min a b := by
  rw [min_comm, min_def_lt]
  simp [least, less, absent]

@[simp] theorem greatest_rat (a b : ℚ) : greatest a b = max a b := by
  rw [max_def_lt]
  simp [greatest, less, absent]

@[simp] theorem clamp_rat (x : ℚ) : clamp x = max 0 x := by
  rw [max_def_lt, clamp]
  simp only [positive_rat]
  rfl

end Scalar

-- The points lie in the box, and one of them on each side.
structure Bounds.Around (b : Bounds ℚ) (points : Set (Point ℚ)) : Prop where
  left : IsLeast (Point.x '' points) b.low.x
  right : IsGreatest (Point.x '' points) b.high.x
  bottom : IsLeast (Point.y '' points) b.low.y
  top : IsGreatest (Point.y '' points) b.high.y

namespace Bounds

variable {b c : Bounds ℚ} {points : Set (Point ℚ)} {q : Point ℚ} {z : Zoom}

theorem around_ofPoint (q : Point ℚ) : (ofPoint q).Around {q} := by
  constructor <;> simp [ofPoint]

theorem Around.extend (around : b.Around points) (q : Point ℚ) :
    (b.extend q).Around (insert q points) := by
  constructor
  · simpa [Bounds.extend, Set.image_insert_eq, min_comm] using around.left.insert q.x
  · simpa [Bounds.extend, Set.image_insert_eq, max_comm] using around.right.insert q.x
  · simpa [Bounds.extend, Set.image_insert_eq, min_comm] using around.bottom.insert q.y
  · simpa [Bounds.extend, Set.image_insert_eq, max_comm] using around.top.insert q.y

theorem Around.foldl_extend (around : b.Around points) (rest : List (Point ℚ)) :
    (rest.foldl Bounds.extend b).Around (points ∪ {q | q ∈ rest}) := by
  induction rest generalizing b points with
  | nil => simpa using around
  | cons q rest ih =>
    have next := ih (around.extend q)
    have same : points ∪ {r | r ∈ q :: rest} = insert q points ∪ {r | r ∈ rest} := by
      ext r
      simp only [Set.mem_union, Set.mem_ofPred_eq, List.mem_cons, Set.mem_insert_iff]
      tauto
    rwa [List.foldl_cons, same]

theorem Around.unique (first : b.Around points) (second : c.Around points) : b = c := by
  obtain ⟨⟨l, u⟩, ⟨r, t⟩⟩ := b
  obtain ⟨⟨l', u'⟩, ⟨r', t'⟩⟩ := c
  obtain rfl : l = l' := first.left.unique second.left
  obtain rfl : r = r' := first.right.unique second.right
  obtain rfl : u = u' := first.bottom.unique second.bottom
  obtain rfl : t = t' := first.top.unique second.top
  rfl

theorem Around.nonempty (around : b.Around points) : points.Nonempty :=
  Set.image_nonempty.1 ⟨_, around.left.1⟩

theorem Around.x_mem (around : b.Around points) (hq : q ∈ points) :
    q.x ∈ Set.Icc b.low.x b.high.x :=
  ⟨around.left.2 (Set.mem_image_of_mem _ hq), around.right.2 (Set.mem_image_of_mem _ hq)⟩

theorem Around.y_mem (around : b.Around points) (hq : q ∈ points) :
    q.y ∈ Set.Icc b.low.y b.high.y :=
  ⟨around.bottom.2 (Set.mem_image_of_mem _ hq), around.top.2 (Set.mem_image_of_mem _ hq)⟩

theorem Around.width_nonneg (around : b.Around points) : 0 ≤ b.width := by
  obtain ⟨q, hq⟩ := around.nonempty
  obtain ⟨low, high⟩ := around.x_mem hq
  exact sub_nonneg.2 (low.trans high)

theorem Around.height_nonneg (around : b.Around points) : 0 ≤ b.height := by
  obtain ⟨q, hq⟩ := around.nonempty
  obtain ⟨low, high⟩ := around.y_mem hq
  exact sub_nonneg.2 (low.trans high)

@[simp] theorem width_zoom (b : Bounds ℚ) (z : Zoom) : (b.zoom z).width = z.factor * b.width := by
  simp only [width, zoom, Point.zoom]
  ring

@[simp] theorem height_zoom (b : Bounds ℚ) (z : Zoom) :
    (b.zoom z).height = z.factor * b.height := by
  simp only [height, zoom, Point.zoom]
  ring

theorem center_zoom (b : Bounds ℚ) (z : Zoom) : (b.zoom z).center = b.center.zoom z := by
  simp only [center, zoom, Point.zoom, Scalar.two_rat, Point.mk.injEq]
  constructor <;> ring

theorem Around.zoom (around : b.Around points) (forward : 0 ≤ z.factor) :
    (b.zoom z).Around ((·.zoom z) '' points) := by
  have monotone (shift : ℚ) : Monotone fun v => z.factor * v + shift := fun v w le =>
    add_le_add_left (mul_le_mul_of_nonneg_left le forward) shift
  have x : Point.x '' ((·.zoom z) '' points) =
      (fun v => z.factor * v + z.shift.x) '' (Point.x '' points) := by
    rw [Set.image_image, Set.image_image]
    rfl
  have y : Point.y '' ((·.zoom z) '' points) =
      (fun v => z.factor * v + z.shift.y) '' (Point.y '' points) := by
    rw [Set.image_image, Set.image_image]
    rfl
  constructor
  · exact x ▸ (monotone z.shift.x).map_isLeast around.left
  · exact x ▸ (monotone z.shift.x).map_isGreatest around.right
  · exact y ▸ (monotone z.shift.y).map_isLeast around.bottom
  · exact y ▸ (monotone z.shift.y).map_isGreatest around.top

end Bounds

namespace Positions

variable {p : Positions ℚ} {b : Bounds ℚ} {q : Point ℚ}

theorem mem_points : q ∈ p.points ↔ ∃ id : String, p[id]? = some q := by
  simp only [points, List.mem_map, Prod.exists, exists_eq_right,
    Std.ExtTreeMap.mem_toList_iff_getElem?_eq_some]

theorem points_zoom (p : Positions ℚ) (z : Zoom) : (p.zoom z).points = p.points.map (·.zoom z) := by
  simp [points, zoom, Std.ExtTreeMap.toList_map]

theorem points_eq_nil_iff : p.points = [] ↔ p = ∅ := by
  rw [points, List.map_eq_nil_iff, ← List.isEmpty_iff, Std.ExtTreeMap.isEmpty_toList,
    Std.ExtTreeMap.isEmpty_iff]

theorem bounds?_eq_none_iff : p.bounds? = none ↔ p = ∅ := by
  rw [← points_eq_nil_iff, bounds?]
  split
  · next none => simp [none]
  · next some => simp [some]

theorem around_of_bounds? (found : p.bounds? = some b) : b.Around {q | q ∈ p.points} := by
  unfold bounds? at found
  split at found
  · cases found
  · next first rest listed =>
    have all : {q | q ∈ p.points} = {first} ∪ {q | q ∈ rest} := by
      ext q
      simp [listed]
    rw [← Option.some.inj found, all]
    exact (Bounds.around_ofPoint first).foldl_extend rest

theorem bounds?_eq_some_iff : p.bounds? = some b ↔ b.Around {q | q ∈ p.points} := by
  constructor
  · exact around_of_bounds?
  · intro around
    cases found : p.bounds? with
    | none =>
      obtain ⟨q, hq⟩ := around.nonempty
      have hq : q ∈ p.points := hq
      rw [points_eq_nil_iff.2 (bounds?_eq_none_iff.1 found)] at hq
      cases hq
    | some c => exact congrArg some ((around_of_bounds? found).unique around)

theorem bounds?_zoom {z : Zoom} (forward : 0 ≤ z.factor) (found : p.bounds? = some b) :
    (p.zoom z).bounds? = some (b.zoom z) := by
  have image : {q | q ∈ (p.zoom z).points} = (·.zoom z) '' {q | q ∈ p.points} := by
    ext q
    simp [points_zoom]
  rw [bounds?_eq_some_iff, image]
  exact (around_of_bounds? found).zoom forward

end Positions

end DependencyAtlas
