import Mathlib.Tactic.Linarith
import Mathlib.Tactic.Ring
import Milling.Program.Emit
import Milling.Proofs.Contours

/-!
# Moving a shape

A shape is moved by moving the point that it is placed by, and nothing else of it changes. All
that is computed for it is anchored to that point: its box, the corners and the centre of its
contour, every stroke of its letters. So in exact numbers all of this moves along, and what does
not lie anywhere stays: sizes, faults with the numbers in them, the number and the kind of the
moves, and the centre of an arc as seen from where the arc begins.

Doubles are rounded in another way at another place, and there all of this is only nearly so.
-/

namespace Milling

/-! ## Moved boxes, paths and plans -/

section Shift

variable {α : Type} [Scalar α]

/-- The box moved by `dx` and `dy`. -/
def Shape.Bounds.shift (b : Shape.Bounds α) (dx dy : α) : Shape.Bounds α :=
  ⟨b.minX + dx, b.minY + dy, b.maxX + dx, b.maxY + dy⟩

/-- The move with its target and its centre moved by `dx` and `dy`. -/
def Move.shift (dx dy : α) : Move α → Move α
  | .line target => .line (target.shift dx dy)
  | .arc target center turn => .arc (target.shift dx dy) (center.shift dx dy) turn

/-- The path with every point of it moved by `dx` and `dy`. -/
def Path.shift (dx dy : α) (path : Path α) : Path α :=
  { path with start := path.start.shift dx dy, moves := path.moves.map (Move.shift dx dy) }

/-- The plan with its paths moved by `dx` and `dy`, or with the same fault if it has none. -/
def Plan.shift (dx dy : α) (plan : Plan α) : Plan α :=
  { plan with outcome := plan.outcome.map (List.map (Path.shift dx dy)) }

/-- The direction of an arc. -/
def Move.turn? : Move α → Option Turn
  | .line _ => none
  | .arc _ _ turn => some turn

/-- The centre of an arc as seen from where it begins. -/
def Move.offset? (origin : Point α) : Move α → Option (Point α)
  | .line _ => none
  | .arc _ center _ => some ⟨center.x - origin.x, center.y - origin.y⟩

/-- Which moves of a path are arcs, with their directions. -/
def Path.turns (path : Path α) : List (Option Turn) := path.moves.map Move.turn?

/-- The offsets of the arcs of a path, in order. -/
def Path.offsets (path : Path α) : List (Point α) :=
  path.steps.filterMap fun (origin, move) => move.offset? origin

end Shift

/-- The offset that an instruction shows. -/
def Instruction.offset? : Instruction → Option (Point Float)
  | .cutArc _ _ offset _ => some offset
  | _ => none

/-- The offsets of a path are those that the instructions for it show. -/
theorem Program.offsets_ofPath (m : Machine) (path : Path Float) :
    (ofPath m path).filterMap Instruction.offset? = path.offsets := by
  have hcut : ∀ step : Point Float × Move Float,
      (cut m step.1 step.2).offset? = step.2.offset? step.1 := by
    intro step
    obtain ⟨origin, move⟩ := step
    cases move with
    | line target => rfl
    | arc target center turn => rfl
  rw [ofPath, List.filterMap_append, List.filterMap_cons_none rfl, List.filterMap_cons_none rfl,
    List.filterMap_map, List.filterMap_cons_none rfl, List.filterMap_nil, List.append_nil]
  exact List.filterMap_congr fun step _ => hcut step

section Exact

variable {dx dy dx' dy' radius : ℚ}

namespace Point

theorem shift_shift (p : Point ℚ) :
    (p.shift dx dy).shift dx' dy' = p.shift (dx + dx') (dy + dy') :=
  congrArg₂ mk (add_assoc p.x dx dx') (add_assoc p.y dy dy')

theorem shift_zero (p : Point ℚ) : p.shift 0 0 = p :=
  congrArg₂ mk (add_zero p.x) (add_zero p.y)

end Point

namespace Path

theorem target_shift (move : Move ℚ) : (move.shift dx dy).target = move.target.shift dx dy := by
  cases move with
  | line target => rfl
  | arc target center turn => rfl

/-- Each move begins where it did, moved like the rest. -/
theorem steps_shift (path : Path ℚ) : (path.shift dx dy).steps =
    path.steps.map fun (origin, move) => (origin.shift dx dy, move.shift dx dy) := by
  have htargets : (path.moves.map (Move.shift dx dy)).map Move.target =
      (path.moves.map Move.target).map (Point.shift · dx dy) := by
    rw [List.map_map, List.map_map]
    exact List.map_congr_left fun move _ => target_shift move
  calc (path.shift dx dy).steps
      = (path.start.shift dx dy :: (path.moves.map (Move.shift dx dy)).map Move.target).zip
          (path.moves.map (Move.shift dx dy)) := rfl
    _ = ((path.start :: path.moves.map Move.target).map (Point.shift · dx dy)).zip
          (path.moves.map (Move.shift dx dy)) := by rw [htargets, List.map_cons]
    _ = path.steps.map _ := List.zip_map

/-- An arc is as far from its centre as before, and in the same direction. -/
theorem offset?_shift (origin : Point ℚ) (move : Move ℚ) :
    (move.shift dx dy).offset? (origin.shift dx dy) = move.offset? origin := by
  cases move with
  | line target => rfl
  | arc target center turn =>
      exact congrArg some (congrArg₂ Point.mk (add_sub_add_right_eq_sub center.x origin.x dx)
        (add_sub_add_right_eq_sub center.y origin.y dy))

theorem offsets_shift (path : Path ℚ) : (path.shift dx dy).offsets = path.offsets := by
  rw [offsets, offsets, steps_shift, List.filterMap_map]
  exact List.filterMap_congr fun step _ => offset?_shift step.1 step.2

theorem turns_shift (path : Path ℚ) : (path.shift dx dy).turns = path.turns := by
  have hturn : ∀ move : Move ℚ, (move.shift dx dy).turn? = move.turn? := by
    intro move
    cases move with
    | line target => rfl
    | arc target center turn => rfl
  rw [turns, turns, shift, List.map_map]
  exact List.map_congr_left fun move _ => hturn move

end Path

/-! ## The shape and its box -/

namespace Shape

theorem origin_translate (shape : Shape ℚ) :
    (shape.translate dx dy).origin = shape.origin.shift dx dy := by
  cases shape with
  | rectangle corner width height => rfl
  | circle center radius => rfl
  | text origin content size => rfl

theorem lesser_add (a b d : ℚ) : Scalar.lesser (a + d) (b + d) = Scalar.lesser a b + d := by
  show (if b + d < a + d then b + d else a + d) = (if b < a then b else a) + d
  simp only [add_lt_add_iff_right]
  split
  · rfl
  · rfl

theorem greater_add (a b d : ℚ) : Scalar.greater (a + d) (b + d) = Scalar.greater a b + d := by
  show (if a + d < b + d then b + d else a + d) = (if a < b then b else a) + d
  simp only [add_lt_add_iff_right]
  split
  · rfl
  · rfl

theorem bounds_translate (shape : Shape ℚ) :
    (shape.translate dx dy).bounds = shape.bounds.shift dx dy := by
  cases shape with
  | rectangle corner width height =>
      have hright : corner.x + dx + width = corner.x + width + dx := add_right_comm _ _ _
      have hbottom : corner.y + dy + height = corner.y + height + dy := add_right_comm _ _ _
      simp only [translate, bounds, Bounds.shift, Point.shift, hright, hbottom, lesser_add,
        greater_add]
  | circle center radius =>
      have hleast : ∀ a d : ℚ, a + d - Scalar.magnitude radius = a - Scalar.magnitude radius + d :=
        fun a d => add_sub_right_comm a d _
      have hmost : ∀ a d : ℚ, a + d + Scalar.magnitude radius = a + Scalar.magnitude radius + d :=
        fun a d => add_right_comm a d _
      simp only [translate, bounds, Bounds.shift, Point.shift, hleast, hmost]
  | text origin content size =>
      have htop : origin.y + dy - size = origin.y - size + dy := add_sub_right_comm _ _ _
      have hright : origin.x + dx + Lettering.width content size =
          origin.x + Lettering.width content size + dx := add_right_comm _ _ _
      simp only [translate, bounds, Bounds.shift, Point.shift, htop, hright]

theorem translate_translate (shape : Shape ℚ) :
    (shape.translate dx dy).translate dx' dy' = shape.translate (dx + dx') (dy + dy') := by
  cases shape with
  | rectangle corner width height => simp only [translate, Point.shift_shift]
  | circle center radius => simp only [translate, Point.shift_shift]
  | text origin content size => simp only [translate, Point.shift_shift]

theorem translate_zero (shape : Shape ℚ) : shape.translate 0 0 = shape := by
  cases shape with
  | rectangle corner width height => simp only [translate, Point.shift_zero]
  | circle center radius => simp only [translate, Point.shift_zero]
  | text origin content size => simp only [translate, Point.shift_zero]

/-- Moving a shape back restores it. -/
theorem translate_neg (shape : Shape ℚ) :
    (shape.translate dx dy).translate (-dx) (-dy) = shape := by
  rw [translate_translate, add_neg_cancel, add_neg_cancel, translate_zero]

end Shape

/-! ## The plan -/

namespace Lettering

/-- A stroke lies where the character is that it belongs to. -/
theorem layout_shift (content : String) (origin : Point ℚ) (size : ℚ) :
    layout content (origin.shift dx dy) size =
      (layout content origin size).map (List.map (Point.shift · dx dy)) := by
  have hplace : ∀ (left baseline unit : ℚ) (stroke : Stroke),
      place (left + dx) (baseline + dy) unit stroke =
        (place left baseline unit stroke).map (Point.shift · dx dy) := by
    intro left baseline unit stroke
    rw [place, place, List.map_map]
    exact List.map_congr_left fun grid _ =>
      congrArg₂ Point.mk (add_right_comm _ _ _) (add_sub_right_comm _ _ _)
  have hstrokes : ∀ position c, strokesAt (origin.shift dx dy) size position c =
      (strokesAt origin size position c).map (List.map (Point.shift · dx dy)) := by
    intro position c
    have hleft : ∀ across : ℚ, origin.x + dx + across = origin.x + across + dx :=
      fun across => add_right_comm _ _ _
    rw [strokesAt, strokesAt, List.map_map, Point.shift]
    dsimp only
    rw [hleft]
    exact List.map_congr_left fun stroke _ => hplace _ _ _ stroke
  rw [layout, layout, List.map_flatMap]
  exact congrArg (List.flatMap · _) (funext fun entry => hstrokes entry.2 entry.1)

end Lettering

namespace Contour

theorem ofStroke?_map (stroke : List (Point ℚ)) :
    ofStroke? (stroke.map (Point.shift · dx dy)) = (ofStroke? stroke).map (Path.shift dx dy) := by
  cases stroke with
  | nil => rfl
  | cons first rest =>
      show some (Path.mk _ ((rest.map _).map Move.line) false) =
        some (Path.mk _ ((rest.map Move.line).map _) false)
      rw [List.map_map, List.map_map]
      rfl

/-- Both corners move along, so the sides are as far apart as before, and meet if they did. -/
theorem rectangle_shift (corner : Point ℚ) (width height : ℚ) :
    rectangle radius (corner.shift dx dy) width height =
      (rectangle radius corner width height).map (Path.shift dx dy) := by
  have hnear : ∀ a d : ℚ, a + d - radius = a - radius + d :=
    fun a d => add_sub_right_comm a d radius
  have hfar : ∀ a d size : ℚ, a + d + size + radius = a + size + radius + d := by
    intro a d size
    rw [add_right_comm a d, add_right_comm (a + size)]
  unfold rectangle
  cases positive "width" width with
  | error fault => rfl
  | ok =>
    cases positive "height" height with
    | error fault => rfl
    | ok =>
      show ite _ _ _ = Except.map _ (ite _ _ _)
      simp only [Point.shift, hnear, hfar, add_lt_add_iff_right, add_sub_add_right_eq_sub]
      split
      · rfl
      · rfl

theorem circle_shift (center : Point ℚ) (shapeRadius : ℚ) :
    circle radius (center.shift dx dy) shapeRadius =
      (circle radius center shapeRadius).map (Path.shift dx dy) := by
  have hstart : Point.mk (center.x + dx + (shapeRadius + radius)) (center.y + dy) =
      (Point.mk (center.x + (shapeRadius + radius)) center.y).shift dx dy :=
    congrArg (Point.mk · _) (add_right_comm _ _ _)
  unfold circle
  cases positive "radius" shapeRadius with
  | error fault => rfl
  | ok =>
    show ite _ _ _ = Except.map _ (ite _ _ _)
    rw [Point.shift]
    dsimp only
    rw [hstart]
    split
    · rfl
    · rfl

theorem lettering_shift (origin : Point ℚ) (content : String) (size : ℚ) :
    lettering (origin.shift dx dy) content size =
      (lettering origin content size).map (List.map (Path.shift dx dy)) := by
  have hpaths : (Lettering.layout content (origin.shift dx dy) size).filterMap ofStroke? =
      ((Lettering.layout content origin size).filterMap ofStroke?).map (Path.shift dx dy) := by
    rw [Lettering.layout_shift, List.filterMap_map, List.map_filterMap]
    exact List.filterMap_congr fun stroke _ => ofStroke?_map stroke
  unfold lettering
  cases positive "font size" size with
  | error fault => rfl
  | ok => exact congrArg Except.ok hpaths

/-- **What is planned for a moved shape** is what was planned for it, moved along. -/
theorem ofShape_translate (shape : Shape ℚ) : ofShape radius (shape.translate dx dy) =
    (ofShape radius shape).map (List.map (Path.shift dx dy)) := by
  cases shape with
  | rectangle corner width height =>
      rw [Shape.translate, ofShape, ofShape, rectangle_shift]
      cases rectangle radius corner width height with
      | error fault => rfl
      | ok path => rfl
  | circle center shapeRadius =>
      rw [Shape.translate, ofShape, ofShape, circle_shift]
      cases circle radius center shapeRadius with
      | error fault => rfl
      | ok path => rfl
  | text origin content size => exact lettering_shift origin content size

end Contour

namespace Plan

theorem paths_shift (plan : Plan ℚ) :
    (plan.shift dx dy).paths = plan.paths.map (Path.shift dx dy) := by
  obtain ⟨id, kind, outcome⟩ := plan
  cases outcome with
  | error fault => rfl
  | ok paths => rfl

theorem ofItem_translate (id : String) (shape : Shape ℚ) :
    ofItem radius ⟨id, shape.translate dx dy⟩ = (ofItem radius ⟨id, shape⟩).shift dx dy := by
  have hkind : (shape.translate dx dy).kind = shape.kind := by
    cases shape with
    | rectangle corner width height => rfl
    | circle center radius => rfl
    | text origin content size => rfl
  exact congrArg₂ (mk id) hkind (Contour.ofShape_translate shape)

end Plan

end Exact

/--
**Moving a shape moves its toolpath and nothing else.** In exact numbers the point that a moved
shape is placed by and all sides of its box are moved by as much as the shape. It is left out of
the program exactly if it was left out before, and then with the same fault; otherwise its
paths are the old ones, as many and with as many moves, with every start, target and centre
moved by as much. So neither the kinds and directions of the moves, nor what is closed, nor the
offsets of the arcs change. Moving it once more adds the displacements, and moving it back
restores it.
-/
theorem Shape.translate_exact (shape : Shape ℚ) (dx dy radius : ℚ) :
    ((shape.translate dx dy).origin = shape.origin.shift dx dy ∧
      (shape.translate dx dy).bounds = shape.bounds.shift dx dy) ∧
    (∀ id,
      let plan := Plan.ofItem radius ⟨id, shape⟩
      let moved := Plan.ofItem radius ⟨id, shape.translate dx dy⟩
      (moved.id = plan.id ∧ moved.kind = plan.kind) ∧
      (∀ fault, moved.outcome = .error fault ↔ plan.outcome = .error fault) ∧
      (∀ paths, plan.outcome = .ok paths →
        moved.outcome = .ok (paths.map (Path.shift dx dy))) ∧
      moved.paths.map Path.turns = plan.paths.map Path.turns ∧
      moved.paths.map Path.closed = plan.paths.map Path.closed ∧
      moved.paths.map Path.offsets = plan.paths.map Path.offsets) ∧
    (∀ dx' dy',
      (shape.translate dx dy).translate dx' dy' = shape.translate (dx + dx') (dy + dy')) ∧
    (shape.translate dx dy).translate (-dx) (-dy) = shape := by
  refine ⟨⟨origin_translate shape, bounds_translate shape⟩, fun id => ?_,
    fun dx' dy' => translate_translate shape, translate_neg shape⟩
  intro plan moved
  have hmoved : moved = plan.shift dx dy := Plan.ofItem_translate id shape
  have hpaths : moved.paths = plan.paths.map (Path.shift dx dy) :=
    hmoved ▸ Plan.paths_shift plan
  have hsame : ∀ {β : Type} (f : Path ℚ → β), (∀ path, f (path.shift dx dy) = f path) →
      moved.paths.map f = plan.paths.map f := by
    intro β f hf
    rw [hpaths, List.map_map]
    exact List.map_congr_left fun path _ => hf path
  refine ⟨?_, fun fault => ?_, fun paths h => ?_, hsame _ Path.turns_shift,
    hsame _ fun path => rfl, hsame _ Path.offsets_shift⟩
  · rw [hmoved]
    exact ⟨rfl, rfl⟩
  · rw [hmoved]
    exact Outcome.map_eq_error_iff
  · rw [hmoved, Plan.shift, h]
    rfl

end Milling
