import Mathlib.Analysis.Convex.Segment
import Milling.Proofs.Boxes
import Milling.Proofs.Contours

/-!
# One tool radius outside

The planner never computes with the outline of a shape. It puts together two corners, or the
radius of a circle, tests what came out, and leaves the rest to the moves. In exact numbers
this is the outline moved outwards by the radius of the tool, on every side by the same, and
the tests say that something is left of the shape. A radius below zero moves it inwards.

The points of a contour are those that its moves pass. What it goes around is told from its
moves too: it is followed clockwise, so that lies on the right hand of all of them. A greater
tool then goes around the contour of a smaller one, because it goes around more.
-/

namespace Milling

/-! ## What a path passes and what it goes around -/

namespace Point

/-- The point at a part of the way from one point to another. -/
def along (p q : Point ℚ) (part : ℚ) : Point ℚ :=
  ⟨p.x + part * (q.x - p.x), p.y + part * (q.y - p.y)⟩

/-- The square of the distance between two points. -/
def square (p q : Point ℚ) : ℚ := (q.x - p.x) ^ 2 + (q.y - p.y) ^ 2

/-- Twice the area of a triangle, below zero if its corners follow each other clockwise. -/
def turning (p q r : Point ℚ) : ℚ := (q.x - p.x) * (r.y - p.y) - (r.x - p.x) * (q.y - p.y)

end Point

namespace Move

/-- A point that a move passes. On an arc these are the points of its circle on one side of the
chord, or all of them if the arc ends where it begins. -/
def Passes (origin p : Point ℚ) : Move ℚ → Prop
  | .line target => ∃ part, 0 ≤ part ∧ part ≤ 1 ∧ p = origin.along target part
  | .arc target center turn => center.square p = center.square origin ∧
      match turn with
      | .clockwise => origin.turning p target ≤ 0
      | .counterclockwise => 0 ≤ origin.turning p target

/-- Above zero for a point on the right hand of a move, and below it for one on the left hand.
What a clockwise arc has on its right hand is the inside of its circle. -/
def right (origin p : Point ℚ) : Move ℚ → ℚ
  | .line target => origin.turning p target
  | .arc _ center .clockwise => center.square origin - center.square p
  | .arc _ center .counterclockwise => center.square p - center.square origin

variable {x y a b : ℚ} {p : Point ℚ}

theorem exists_part_iff :
    (∃ part, 0 ≤ part ∧ part ≤ 1 ∧ y = a + part * (b - a)) ↔ y ∈ Set.uIcc a b := by
  rw [← segment_eq_uIcc, segment_eq_image']
  simp [and_assoc, eq_comm]

/-- The points of a line in the direction of the y axis. -/
theorem passes_upright_iff : (Move.line ⟨x, b⟩).Passes ⟨x, a⟩ p ↔ p.x = x ∧ p.y ∈ Set.uIcc a b := by
  obtain ⟨px, py⟩ := p
  rw [← exists_part_iff]
  simp only [Passes, Point.along, Point.mk.injEq, sub_self, mul_zero, add_zero]
  constructor
  · intro h
    obtain ⟨part, hfirst, hlast, hx, hy⟩ := h
    exact ⟨hx, part, hfirst, hlast, hy⟩
  · intro h
    obtain ⟨hx, part, hfirst, hlast, hy⟩ := h
    exact ⟨part, hfirst, hlast, hx, hy⟩

/-- The points of a line in the direction of the x axis. -/
theorem passes_level_iff : (Move.line ⟨b, y⟩).Passes ⟨a, y⟩ p ↔ p.y = y ∧ p.x ∈ Set.uIcc a b := by
  obtain ⟨px, py⟩ := p
  rw [← exists_part_iff]
  simp only [Passes, Point.along, Point.mk.injEq, sub_self, mul_zero, add_zero]
  constructor
  · intro h
    obtain ⟨part, hfirst, hlast, hx, hy⟩ := h
    exact ⟨hy, part, hfirst, hlast, hx⟩
  · intro h
    obtain ⟨hy, part, hfirst, hlast, hx⟩ := h
    exact ⟨part, hfirst, hlast, hx, hy⟩

end Move

namespace Path

/-- A point that one of the moves passes. -/
def Passes (path : Path ℚ) (p : Point ℚ) : Prop := ∃ step ∈ path.steps, step.2.Passes step.1 p

/-- On the left hand of no move: within a contour that is followed clockwise and always turns
right, or on it. -/
def Surrounds (path : Path ℚ) (p : Point ℚ) : Prop := ∀ step ∈ path.steps, 0 ≤ step.2.right step.1 p

/-- On the right hand of every move: within such a contour and not on it. -/
def Clears (path : Path ℚ) (p : Point ℚ) : Prop := ∀ step ∈ path.steps, 0 < step.2.right step.1 p

end Path

/-! ## Around a box and around a circle -/

namespace Shape

/-- The nominal box of a rectangle that has a width and a height. -/
theorem bounds_rectangle {corner : Point ℚ} {width height : ℚ} (hwidth : 0 < width)
    (hheight : 0 < height) :
    (rectangle corner width height).bounds =
      ⟨corner.x, corner.y, corner.x + width, corner.y + height⟩ := by
  have hlesser : ∀ {a b : ℚ}, 0 < b → Scalar.lesser a (a + b) = a := fun hpos =>
    if_neg (lt_add_of_pos_right _ hpos).not_gt
  have hgreater : ∀ {a b : ℚ}, 0 < b → Scalar.greater a (a + b) = a + b := fun hpos =>
    if_pos (lt_add_of_pos_right _ hpos)
  rw [bounds, hlesser hwidth, hlesser hheight, hgreater hwidth, hgreater hheight]

namespace Bounds

/-- The box with every side moved outwards. -/
def grow (b : Bounds ℚ) (reach : ℚ) : Bounds ℚ :=
  ⟨b.minX - reach, b.minY - reach, b.maxX + reach, b.maxY + reach⟩

/-- A point on one of the sides of a box. -/
structure OnEdge (b : Bounds ℚ) (p : Point ℚ) : Prop extends b.Contains p where
  side : p.x = b.minX ∨ p.x = b.maxX ∨ p.y = b.minY ∨ p.y = b.maxY

/-- A point within a box and on none of its sides. -/
structure Inside (b : Bounds ℚ) (p : Point ℚ) : Prop where
  minX_lt : b.minX < p.x
  lt_maxX : p.x < b.maxX
  minY_lt : b.minY < p.y
  lt_maxY : p.y < b.maxY

variable {b : Bounds ℚ} {p : Point ℚ} {r r' : ℚ}

theorem Contains.grow_of_le (h : (b.grow r).Contains p) (hle : r ≤ r') :
    (b.grow r').Contains p where
  minX_le := (sub_le_sub_left hle b.minX).trans h.minX_le
  le_maxX := h.le_maxX.trans (add_le_add_right hle b.maxX)
  minY_le := (sub_le_sub_left hle b.minY).trans h.minY_le
  le_maxY := h.le_maxY.trans (add_le_add_right hle b.maxY)

theorem Contains.grow_of_lt (h : (b.grow r).Contains p) (hlt : r < r') :
    (b.grow r').Inside p where
  minX_lt := (sub_lt_sub_left hlt b.minX).trans_le h.minX_le
  lt_maxX := h.le_maxX.trans_lt (add_lt_add_right hlt b.maxX)
  minY_lt := (sub_lt_sub_left hlt b.minY).trans_le h.minY_le
  lt_maxY := h.le_maxY.trans_lt (add_lt_add_right hlt b.maxY)

end Bounds

end Shape

namespace Contour

open Outcome (ok_of_bind)
open Shape (Bounds bounds_rectangle)

/-- Along the sides of a box, clockwise from its least corner. -/
def outline (b : Bounds ℚ) : Path ℚ where
  start := ⟨b.minX, b.minY⟩
  moves := [.line ⟨b.minX, b.maxY⟩, .line ⟨b.maxX, b.maxY⟩, .line ⟨b.maxX, b.minY⟩,
    .line ⟨b.minX, b.minY⟩]
  closed := true

/-- Once around a circle, clockwise from angle zero. -/
def around (center : Point ℚ) (reach : ℚ) : Path ℚ where
  start := ⟨center.x + reach, center.y⟩
  moves := [.arc ⟨center.x + reach, center.y⟩ center .clockwise]
  closed := true

section Outline

variable {b : Bounds ℚ} {p center : Point ℚ} {reach : ℚ}

theorem passes_outline_iff (hwidth : b.minX < b.maxX) (hheight : b.minY < b.maxY) :
    (outline b).Passes p ↔ b.OnEdge p := by
  have hsides : (outline b).Passes p ↔
      (p.x = b.minX ∧ p.y ∈ Set.uIcc b.minY b.maxY) ∨
      (p.y = b.maxY ∧ p.x ∈ Set.uIcc b.minX b.maxX) ∨
      (p.x = b.maxX ∧ p.y ∈ Set.uIcc b.maxY b.minY) ∨
      (p.y = b.minY ∧ p.x ∈ Set.uIcc b.maxX b.minX) := by
    rw [← Move.passes_upright_iff, ← Move.passes_level_iff, ← Move.passes_upright_iff,
      ← Move.passes_level_iff]
    simp [Path.Passes, Path.steps, outline, Move.target]
  rw [hsides, Set.uIcc_comm b.maxY, Set.uIcc_comm b.maxX, Set.uIcc_of_le hwidth.le,
    Set.uIcc_of_le hheight.le]
  constructor
  · intro h
    rcases h with ⟨hx, hmin, hmax⟩ | ⟨hy, hmin, hmax⟩ | ⟨hx, hmin, hmax⟩ | ⟨hy, hmin, hmax⟩
    · exact ⟨⟨hx.ge, hx.trans_le hwidth.le, hmin, hmax⟩, .inl hx⟩
    · exact ⟨⟨hmin, hmax, hheight.le.trans_eq hy.symm, hy.le⟩, .inr (.inr (.inr hy))⟩
    · exact ⟨⟨hwidth.le.trans_eq hx.symm, hx.le, hmin, hmax⟩, .inr (.inl hx)⟩
    · exact ⟨⟨hmin, hmax, hy.ge, hy.trans_le hheight.le⟩, .inr (.inr (.inl hy))⟩
  · intro h
    obtain ⟨⟨hminX, hmaxX, hminY, hmaxY⟩, hside⟩ := h
    rcases hside with hx | hx | hy | hy
    · exact .inl ⟨hx, hminY, hmaxY⟩
    · exact .inr (.inr (.inl ⟨hx, hminY, hmaxY⟩))
    · exact .inr (.inr (.inr ⟨hy, hminX, hmaxX⟩))
    · exact .inr (.inl ⟨hy, hminX, hmaxX⟩)

/-- How far a point is on the right hand of each side, by the length of that side. -/
theorem right_outline (b : Bounds ℚ) (p : Point ℚ) :
    (outline b).steps.map (fun step => step.2.right step.1 p) =
      [(p.x - b.minX) * (b.maxY - b.minY), (b.maxY - p.y) * (b.maxX - b.minX),
        (b.maxX - p.x) * (b.maxY - b.minY), (p.y - b.minY) * (b.maxX - b.minX)] := by
  simp only [Path.steps, outline, Move.target, Move.right, Point.turning, List.map_cons,
    List.map_nil, List.zip_cons_cons, List.zip_nil_right, List.cons.injEq, and_true]
  exact ⟨by ring, by ring, by ring, by ring⟩

theorem forall_outline_iff {R : ℚ → Prop} :
    (∀ step ∈ (outline b).steps, R (step.2.right step.1 p)) ↔
      (R ((p.x - b.minX) * (b.maxY - b.minY)) ∧ R ((b.maxX - p.x) * (b.maxY - b.minY))) ∧
        R ((p.y - b.minY) * (b.maxX - b.minX)) ∧ R ((b.maxY - p.y) * (b.maxX - b.minX)) := by
  have hmap : (∀ step ∈ (outline b).steps, R (step.2.right step.1 p)) ↔
      ∀ far ∈ (outline b).steps.map (fun step => step.2.right step.1 p), R far :=
    List.forall_mem_map.symm
  rw [hmap, right_outline]
  simp only [List.forall_mem_cons]
  constructor
  · intro h
    obtain ⟨hminX, hmaxY, hmaxX, hminY, -⟩ := h
    exact ⟨⟨hminX, hmaxX⟩, hminY, hmaxY⟩
  · intro h
    obtain ⟨⟨hminX, hmaxX⟩, hminY, hmaxY⟩ := h
    exact ⟨hminX, hmaxY, hmaxX, hminY, List.forall_mem_nil _⟩

theorem surrounds_outline_iff (hwidth : b.minX < b.maxX) (hheight : b.minY < b.maxY) :
    (outline b).Surrounds p ↔ b.Contains p := by
  rw [Path.Surrounds, forall_outline_iff]
  simp only [mul_nonneg_iff_of_pos_right (sub_pos.mpr hwidth),
    mul_nonneg_iff_of_pos_right (sub_pos.mpr hheight), sub_nonneg]
  exact ⟨fun h => ⟨h.1.1, h.1.2, h.2.1, h.2.2⟩,
    fun h => ⟨⟨h.minX_le, h.le_maxX⟩, h.minY_le, h.le_maxY⟩⟩

theorem clears_outline_iff (hwidth : b.minX < b.maxX) (hheight : b.minY < b.maxY) :
    (outline b).Clears p ↔ b.Inside p := by
  rw [Path.Clears, forall_outline_iff]
  simp only [mul_pos_iff_of_pos_right (sub_pos.mpr hwidth),
    mul_pos_iff_of_pos_right (sub_pos.mpr hheight), sub_pos]
  exact ⟨fun h => ⟨h.1.1, h.1.2, h.2.1, h.2.2⟩,
    fun h => ⟨⟨h.minX_lt, h.lt_maxX⟩, h.minY_lt, h.lt_maxY⟩⟩

theorem passes_around_iff : (around center reach).Passes p ↔ center.square p = reach ^ 2 := by
  have hchord : ∀ q : Point ℚ, q.turning p q = 0 := fun q => by
    rw [Point.turning]
    ring
  simp [Path.Passes, Path.steps, around, Move.Passes, hchord, Point.square]

theorem surrounds_around_iff : (around center reach).Surrounds p ↔ center.square p ≤ reach ^ 2 := by
  simp [Path.Surrounds, Path.steps, around, Move.right, Point.square]

theorem clears_around_iff : (around center reach).Clears p ↔ center.square p < reach ^ 2 := by
  simp [Path.Clears, Path.steps, around, Move.right, Point.square]

end Outline

section Planned

variable {r r' : ℚ} {corner center : Point ℚ} {width height radius : ℚ} {path inner : Path ℚ}

theorem positive_eq_ok_iff {dimension : String} {value : ℚ} :
    positive dimension value = .ok () ↔ 0 < value := by
  show (if (0 : ℚ) < value then .ok () else .error _) = Except.ok () ↔ _
  split
  · simp [*]
  · simp [*]

/-- The corners are apart exactly if the size has something left. -/
theorem corners_apart_iff :
    (corner.x - r < corner.x + width + r ∧ corner.y - r < corner.y + height + r) ↔
      0 < width + 2 * r ∧ 0 < height + 2 * r := by
  constructor
  · intro h
    exact ⟨by linarith [h.1], by linarith [h.2]⟩
  · intro h
    exact ⟨by linarith [h.1], by linarith [h.2]⟩

/-- **Which rectangles are planned, and how.** -/
theorem rectangle_eq_ok_iff : rectangle r corner width height = .ok path ↔
    (0 < width ∧ 0 < height ∧ 0 < width + 2 * r ∧ 0 < height + 2 * r) ∧
      path = outline ((Shape.rectangle corner width height).bounds.grow r) := by
  constructor
  · intro h
    obtain ⟨hapart, hpath⟩ := of_rectangle h
    obtain ⟨-, -, h⟩ := ok_of_bind h
    obtain ⟨-, -, h⟩ := ok_of_bind h
    obtain ⟨_, hwidth, h⟩ := ok_of_bind h
    obtain ⟨_, hheight, -⟩ := ok_of_bind h
    have hwidth := positive_eq_ok_iff.mp hwidth
    have hheight := positive_eq_ok_iff.mp hheight
    refine ⟨⟨hwidth, hheight, corners_apart_iff.mp hapart⟩, ?_⟩
    rw [hpath, bounds_rectangle hwidth hheight]
    rfl
  · intro h
    obtain ⟨⟨hwidth, hheight, hleft⟩, rfl⟩ := h
    rw [rectangle, positive_eq_ok_iff.mpr hwidth, positive_eq_ok_iff.mpr hheight,
      bounds_rectangle hwidth hheight]
    exact if_pos (corners_apart_iff.mpr hleft)

/-- **Which circles are planned, and how.** -/
theorem circle_eq_ok_iff : circle r center radius = .ok path ↔
    (0 < radius ∧ 0 < radius + r) ∧ path = around center (radius + r) := by
  constructor
  · intro h
    obtain ⟨-, hpath⟩ := of_circle h
    obtain ⟨-, -, h⟩ := ok_of_bind h
    obtain ⟨-, -, h⟩ := ok_of_bind h
    obtain ⟨_, hradius, h⟩ := ok_of_bind h
    obtain ⟨-, -, h⟩ := ok_of_bind h
    dsimp only at h
    split at h
    · rename_i hleft
      exact ⟨⟨positive_eq_ok_iff.mp hradius, hleft⟩, hpath⟩
    · cases h
  · intro h
    obtain ⟨⟨hradius, hleft⟩, rfl⟩ := h
    rw [circle, positive_eq_ok_iff.mpr hradius]
    exact if_pos hleft

/-- The box that a planned contour follows has a width and a height. -/
theorem grow_apart (corner : Point ℚ)
    (h : 0 < width ∧ 0 < height ∧ 0 < width + 2 * r ∧ 0 < height + 2 * r) :
    ((Shape.rectangle corner width height).bounds.grow r).minX <
        ((Shape.rectangle corner width height).bounds.grow r).maxX ∧
      ((Shape.rectangle corner width height).bounds.grow r).minY <
        ((Shape.rectangle corner width height).bounds.grow r).maxY := by
  obtain ⟨hwidth, hheight, hleft⟩ := h
  rw [bounds_rectangle hwidth hheight]
  exact corners_apart_iff.mpr hleft

/-- A greater tool goes around a rectangle outside a smaller one. -/
theorem rectangle_mono (h : rectangle r corner width height = .ok inner) (hle : r ≤ r') :
    ∃ outer, rectangle r' corner width height = .ok outer ∧
      (∀ p, inner.Passes p → inner.Surrounds p) ∧
      ∀ p, inner.Surrounds p → outer.Surrounds p ∧ (r < r' → outer.Clears p) := by
  obtain ⟨hplanned, rfl⟩ := rectangle_eq_ok_iff.mp h
  obtain ⟨hx, hy⟩ := grow_apart corner hplanned
  obtain ⟨hwidth, hheight, hleft, hhigh⟩ := hplanned
  have hplanned' : 0 < width ∧ 0 < height ∧ 0 < width + 2 * r' ∧ 0 < height + 2 * r' :=
    ⟨hwidth, hheight, by linarith, by linarith⟩
  obtain ⟨hx', hy'⟩ := grow_apart corner hplanned'
  refine ⟨_, rectangle_eq_ok_iff.mpr ⟨hplanned', rfl⟩, fun p hp => ?_,
    fun p hp => ⟨?_, fun hlt => ?_⟩⟩
  · exact (surrounds_outline_iff hx hy).mpr ((passes_outline_iff hx hy).mp hp).toContains
  · exact (surrounds_outline_iff hx' hy').mpr
      (((surrounds_outline_iff hx hy).mp hp).grow_of_le hle)
  · exact (clears_outline_iff hx' hy').mpr
      (((surrounds_outline_iff hx hy).mp hp).grow_of_lt hlt)

/-- A greater tool goes around a circle outside a smaller one. -/
theorem circle_mono (h : circle r center radius = .ok inner) (hle : r ≤ r') :
    ∃ outer, circle r' center radius = .ok outer ∧
      (∀ p, inner.Passes p → inner.Surrounds p) ∧
      ∀ p, inner.Surrounds p → outer.Surrounds p ∧ (r < r' → outer.Clears p) := by
  obtain ⟨⟨hradius, hleft⟩, rfl⟩ := circle_eq_ok_iff.mp h
  refine ⟨_, circle_eq_ok_iff.mpr ⟨⟨hradius, by linarith⟩, rfl⟩, fun p hp => ?_,
    fun p hp => ⟨?_, fun hlt => ?_⟩⟩
  · exact surrounds_around_iff.mpr (passes_around_iff.mp hp).le
  · exact surrounds_around_iff.mpr ((surrounds_around_iff.mp hp).trans
      (pow_le_pow_left₀ hleft.le (add_le_add_right hle radius) 2))
  · exact clears_around_iff.mpr ((surrounds_around_iff.mp hp).trans_lt
      (pow_lt_pow_left₀ (add_lt_add_right hlt radius) hleft.le two_ne_zero))

/-- A greater tool goes around every shape that is no text outside a smaller one. -/
theorem ofShape_mono {shape : Shape ℚ} (hkind : shape.kind ≠ .text) (hle : r ≤ r')
    {paths : List (Path ℚ)} (h : ofShape r shape = .ok paths) :
    ∃ inner outer, paths = [inner] ∧ ofShape r' shape = .ok [outer] ∧
      (∀ p, inner.Passes p → inner.Surrounds p) ∧
      ∀ p, inner.Surrounds p → outer.Surrounds p ∧ (r < r' → outer.Clears p) := by
  cases shape with
  | rectangle corner width height =>
      obtain ⟨inner, hinner, h⟩ := ok_of_bind h
      obtain ⟨outer, houter, hgrows⟩ := rectangle_mono hinner hle
      refine ⟨inner, outer, (Except.ok.inj h).symm, ?_, hgrows⟩
      rw [ofShape, houter]
      rfl
  | circle center radius =>
      obtain ⟨inner, hinner, h⟩ := ok_of_bind h
      obtain ⟨outer, houter, hgrows⟩ := circle_mono hinner hle
      refine ⟨inner, outer, (Except.ok.inj h).symm, ?_, hgrows⟩
      rw [ofShape, houter]
      rfl
  | text origin content size => exact absurd rfl hkind

end Planned

/--
**The tool runs exactly one radius outside, and further out the greater it is.** In exact
numbers a rectangle is planned exactly if its width and its height are above zero and stay so
with the radius added at both ends; the contour is then the edge of the box around it with
every side moved outwards by the radius, and encloses that box. A circle is planned exactly
if its radius is above zero and stays so; the arc then begins at angle zero and runs where
the distance from the centre is the sum of the radii. What is planned for one tool is planned
for every greater one, and all of the one contour lies within the other, on no side at its
edge if the radii differ. Radii may be below zero.
-/
theorem offset_exact (r : ℚ) :
    (∀ corner width height,
      ((∃ path, rectangle r corner width height = .ok path) ↔
        0 < width ∧ 0 < height ∧ 0 < width + 2 * r ∧ 0 < height + 2 * r) ∧
      ∀ path, rectangle r corner width height = .ok path → ∀ p,
        (path.Passes p ↔ ((Shape.rectangle corner width height).bounds.grow r).OnEdge p) ∧
        (path.Surrounds p ↔ ((Shape.rectangle corner width height).bounds.grow r).Contains p)) ∧
    (∀ center radius,
      ((∃ path, circle r center radius = .ok path) ↔ 0 < radius ∧ 0 < radius + r) ∧
      ∀ path, circle r center radius = .ok path →
        path.start = ⟨center.x + (radius + r), center.y⟩ ∧
        path.moves = [.arc path.start center .clockwise] ∧
        ∀ p, (path.Passes p ↔ center.square p = (radius + r) ^ 2) ∧
          (path.Surrounds p ↔ center.square p ≤ (radius + r) ^ 2)) ∧
    ∀ shape : Shape ℚ, shape.kind ≠ .text → ∀ r', r ≤ r' →
      ∀ paths, ofShape r shape = .ok paths →
        ∃ inner outer, paths = [inner] ∧ ofShape r' shape = .ok [outer] ∧
          (∀ p, inner.Passes p → inner.Surrounds p) ∧
          ∀ p, inner.Surrounds p → outer.Surrounds p ∧ (r < r' → outer.Clears p) := by
  refine ⟨fun corner width height => ⟨?_, fun path hpath p => ?_⟩,
    fun center radius => ⟨?_, fun path hpath => ?_⟩,
    fun shape hkind r' hle paths => ofShape_mono hkind hle⟩
  · simp only [rectangle_eq_ok_iff, exists_and_left, exists_eq, and_true]
  · obtain ⟨hplanned, rfl⟩ := rectangle_eq_ok_iff.mp hpath
    obtain ⟨hx, hy⟩ := grow_apart corner hplanned
    exact ⟨passes_outline_iff hx hy, surrounds_outline_iff hx hy⟩
  · simp only [circle_eq_ok_iff, exists_and_left, exists_eq, and_true]
  · obtain ⟨-, rfl⟩ := circle_eq_ok_iff.mp hpath
    exact ⟨rfl, rfl, fun p => ⟨passes_around_iff, surrounds_around_iff⟩⟩

/-- A rectangle that is cut a millimetre within its outline, and too narrow to go further in. -/
theorem offset_exact_inwards :
    (∀ p, (outline ⟨2, 3, 3, 5⟩).Passes p ↔ (⟨2, 3, 3, 5⟩ : Bounds ℚ).OnEdge p) ∧
      (¬∃ path, rectangle (-3 / 2) (⟨1, 2⟩ : Point ℚ) 3 4 = .ok path) ∧
      (∃ path, circle (-1 / 2) (⟨0, 0⟩ : Point ℚ) 1 = .ok path ∧ path.start = ⟨1 / 2, 0⟩) ∧
      ∃ outer, ofShape (1 / 2) (.rectangle (⟨1, 2⟩ : Point ℚ) 3 4) = .ok [outer] ∧
        outer.Clears ⟨2, 4⟩ := by
  have hplanned : rectangle (-1) (⟨1, 2⟩ : Point ℚ) 3 4 = .ok (outline ⟨2, 3, 3, 5⟩) := by
    decide +kernel
  have hbox : (Shape.rectangle (⟨1, 2⟩ : Point ℚ) 3 4).bounds.grow (-1) = ⟨2, 3, 3, 5⟩ := by
    decide +kernel
  obtain ⟨hrectangles, -, hgrows⟩ := offset_exact (-1)
  have hedge := (hrectangles ⟨1, 2⟩ 3 4).2 _ hplanned
  rw [hbox] at hedge
  refine ⟨fun p => (hedge p).1, ?_, ?_, ?_⟩
  · rw [((offset_exact (-3 / 2)).1 ⟨1, 2⟩ 3 4).1]
    norm_num
  · obtain ⟨hiff, hpaths⟩ := (offset_exact (-1 / 2)).2.1 ⟨0, 0⟩ 1
    obtain ⟨path, hpath⟩ := hiff.mpr (by norm_num)
    refine ⟨path, hpath, ?_⟩
    rw [(hpaths path hpath).1]
    norm_num
  · have hpaths : ofShape (-1) (.rectangle (⟨1, 2⟩ : Point ℚ) 3 4) =
        .ok [outline ⟨2, 3, 3, 5⟩] := by decide +kernel
    obtain ⟨inner, outer, hinner, houter, -, hwithin⟩ :=
      hgrows _ (by decide) (1 / 2) (by norm_num) _ hpaths
    obtain rfl := List.head_eq_of_cons_eq hinner
    have hon : (⟨2, 3, 3, 5⟩ : Bounds ℚ).Contains ⟨2, 4⟩ :=
      ⟨by norm_num, by norm_num, by norm_num, by norm_num⟩
    exact ⟨outer, houter, (hwithin _ ((hedge _).2.mpr hon)).2 (by norm_num)⟩

end Contour

end Milling
