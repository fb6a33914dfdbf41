import Milling.Toolpath.Contour
import Milling.Proofs.Outcomes

/-!
# The contours that planning gives

Planning a shape either fails or gives paths of a known form: four sides, one full
arc, or the strokes of a text. Everything that a program may take for granted about
its paths is read off these forms. The first of it is that a path always goes
somewhere: a plunge that is followed by no cut would leave a hole.
-/

namespace Milling

namespace Lettering

/-- **Every stroke of the font has somewhere to go** from its first point. -/
theorem two_le_length_of_mem_glyphs : ∀ entry ∈ glyphs, ∀ stroke ∈ entry.2, 2 ≤ stroke.length := by
  decide

theorem two_le_length_of_glyph? {c : Char} {glyph : Glyph} (h : glyph? c = some glyph) :
    ∀ stroke ∈ glyph, 2 ≤ stroke.length := by
  obtain ⟨before, after, hsplit, -⟩ := List.lookup_eq_some_iff.mp h
  exact two_le_length_of_mem_glyphs (c.toUpper, glyph) (by rw [hsplit]; simp)

variable {α : Type} [Scalar α]

/-- A stroke keeps its points when it is put on the work surface. -/
theorem two_le_length_of_mem_layout {content : String} {origin : Point α} {size : α} :
    ∀ stroke ∈ layout content origin size, 2 ≤ stroke.length := by
  intro stroke hstroke
  obtain ⟨⟨c, position⟩, -, hstroke⟩ := List.mem_flatMap.mp hstroke
  obtain ⟨drawn, hdrawn, rfl⟩ := List.mem_map.mp hstroke
  rw [place, List.length_map]
  cases hg : glyph? c with
  | none => rw [hg] at hdrawn; simp at hdrawn
  | some glyph =>
      rw [hg] at hdrawn
      exact two_le_length_of_glyph? hg drawn hdrawn

end Lettering

namespace Contour

open Outcome (ok_of_bind)

variable {α : Type} [Scalar α]

/-- An accepted rectangle has sides that do not meet, and is cut along all four of them. -/
theorem of_rectangle {radius : α} {corner : Point α} {width height : α} {path : Path α}
    (h : rectangle radius corner width height = .ok path) :
    (corner.x - radius < corner.x + width + radius ∧
      corner.y - radius < corner.y + height + radius) ∧
    path = {
      start := ⟨corner.x - radius, corner.y - radius⟩
      moves := [
        .line ⟨corner.x - radius, corner.y + height + radius⟩,
        .line ⟨corner.x + width + radius, corner.y + height + radius⟩,
        .line ⟨corner.x + width + radius, corner.y - radius⟩,
        .line ⟨corner.x - radius, corner.y - radius⟩]
      closed := true } := by
  obtain ⟨-, -, h⟩ := ok_of_bind h
  obtain ⟨-, -, h⟩ := ok_of_bind h
  obtain ⟨-, -, h⟩ := ok_of_bind h
  obtain ⟨-, -, h⟩ := ok_of_bind h
  obtain ⟨-, -, h⟩ := ok_of_bind h
  dsimp only at h
  split at h
  · rename_i hapart
    exact ⟨hapart, (Except.ok.inj h).symm⟩
  · cases h

/-- The four sides of an accepted rectangle. -/
theorem eq_of_rectangle {radius : α} {corner : Point α} {width height : α} {path : Path α}
    (h : rectangle radius corner width height = .ok path) :
    path = {
      start := ⟨corner.x - radius, corner.y - radius⟩
      moves := [
        .line ⟨corner.x - radius, corner.y + height + radius⟩,
        .line ⟨corner.x + width + radius, corner.y + height + radius⟩,
        .line ⟨corner.x + width + radius, corner.y - radius⟩,
        .line ⟨corner.x - radius, corner.y - radius⟩]
      closed := true } :=
  (of_rectangle h).2

theorem finite_eq_ok_iff {field : String} {value : α} :
    finite field value = .ok () ↔ Scalar.isFinite value := by
  unfold finite
  split
  · simp [*]
  · simp [*]

/-- An accepted circle has a finite centre, and is cut along one arc around it. -/
theorem of_circle {radius : α} {center : Point α} {shapeRadius : α} {path : Path α}
    (h : circle radius center shapeRadius = .ok path) :
    (Scalar.isFinite center.x ∧ Scalar.isFinite center.y) ∧
    path = {
      start := ⟨center.x + (shapeRadius + radius), center.y⟩
      moves := [.arc ⟨center.x + (shapeRadius + radius), center.y⟩ center .clockwise]
      closed := true } := by
  obtain ⟨_, hx, h⟩ := ok_of_bind h
  obtain ⟨_, hy, h⟩ := ok_of_bind h
  obtain ⟨-, -, h⟩ := ok_of_bind h
  obtain ⟨-, -, h⟩ := ok_of_bind h
  dsimp only at h
  split at h
  · exact ⟨⟨finite_eq_ok_iff.mp hx, finite_eq_ok_iff.mp hy⟩, (Except.ok.inj h).symm⟩
  · cases h

/-- The one arc around an accepted circle. -/
theorem eq_of_circle {radius : α} {center : Point α} {shapeRadius : α} {path : Path α}
    (h : circle radius center shapeRadius = .ok path) :
    path = {
      start := ⟨center.x + (shapeRadius + radius), center.y⟩
      moves := [.arc ⟨center.x + (shapeRadius + radius), center.y⟩ center .clockwise]
      closed := true } :=
  (of_circle h).2

/-- The strokes of an accepted text. -/
theorem eq_of_lettering {origin : Point α} {content : String} {size : α}
    {paths : List (Path α)} (h : lettering origin content size = .ok paths) :
    paths = (Lettering.layout content origin size).filterMap ofStroke? := by
  obtain ⟨-, -, h⟩ := ok_of_bind h
  obtain ⟨-, -, h⟩ := ok_of_bind h
  obtain ⟨-, -, h⟩ := ok_of_bind h
  exact (Except.ok.inj h).symm

theorem moves_of_lettering {origin : Point α} {content : String} {size : α}
    {paths : List (Path α)} (h : lettering origin content size = .ok paths) :
    ∀ path ∈ paths, path.moves ≠ [] := by
  obtain rfl := eq_of_lettering h
  intro path hpath
  obtain ⟨stroke, hstroke, hof⟩ := List.mem_filterMap.mp hpath
  have hlong := Lettering.two_le_length_of_mem_layout stroke hstroke
  -- the first point is where the path starts, so the second one makes a move
  match stroke, hof, hlong with
  | first :: second :: rest, hof, _ =>
      obtain rfl := Option.some.inj hof
      simp

/-- **No planned path is without a move.** -/
theorem moves_of_ofShape {radius : α} {shape : Shape α} {paths : List (Path α)}
    (h : ofShape radius shape = .ok paths) : ∀ path ∈ paths, path.moves ≠ [] := by
  cases shape with
  | rectangle corner width height =>
      obtain ⟨path, hpath, h⟩ := ok_of_bind h
      obtain rfl := Except.ok.inj h
      intro p hp
      rw [List.mem_singleton.mp hp, eq_of_rectangle hpath]
      exact List.cons_ne_nil _ _
  | circle center shapeRadius =>
      obtain ⟨path, hpath, h⟩ := ok_of_bind h
      obtain rfl := Except.ok.inj h
      intro p hp
      rw [List.mem_singleton.mp hp, eq_of_circle hpath]
      exact List.cons_ne_nil _ _
  | text origin content size => exact moves_of_lettering h

end Contour

end Milling
