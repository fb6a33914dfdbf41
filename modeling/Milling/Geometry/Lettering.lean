import Milling.Geometry.Point

/-!
# Lettering

Text is engraved along single strokes. Each glyph is a list of polylines on a
grid four units wide and six high, with the baseline at the bottom; the grid is
scaled so that six units are the font size. Every character takes six units of
width, whether or not there is a glyph for it, so the strokes at one position
depend on nothing but that position and its character.
-/

namespace Milling.Lettering

/-- A polyline on the glyph grid: across from the left edge, up from the baseline. -/
abbrev Stroke := List (Nat × Nat)

/-- The strokes of one character, in the order they are cut. -/
abbrev Glyph := List Stroke

/-- Grid units from the baseline to the top of a capital. -/
def capHeight : Nat := 6

/-- Grid units that the widest glyph takes. -/
def glyphWidth : Nat := 4

/-- Grid units from one character to the next. -/
def advance : Nat := 6

/-- Every character with a glyph. The blank is one of them, with nothing to cut. -/
def glyphs : List (Char × Glyph) :=
  [ ('A', [[(0, 0), (0, 4), (2, 6), (4, 4), (4, 0)], [(0, 3), (4, 3)]]),
    ('B', [[(0, 0), (0, 6), (3, 6), (4, 5), (4, 4), (3, 3), (0, 3)],
      [(3, 3), (4, 2), (4, 1), (3, 0), (0, 0)]]),
    ('C', [[(4, 6), (0, 6), (0, 0), (4, 0)]]),
    ('D', [[(0, 0), (0, 6), (2, 6), (4, 4), (4, 2), (2, 0), (0, 0)]]),
    ('E', [[(4, 6), (0, 6), (0, 0), (4, 0)], [(0, 3), (3, 3)]]),
    ('F', [[(4, 6), (0, 6), (0, 0)], [(0, 3), (3, 3)]]),
    ('G', [[(4, 6), (0, 6), (0, 0), (4, 0), (4, 3), (2, 3)]]),
    ('H', [[(0, 0), (0, 6)], [(4, 0), (4, 6)], [(0, 3), (4, 3)]]),
    ('I', [[(0, 6), (4, 6)], [(2, 6), (2, 0)], [(0, 0), (4, 0)]]),
    ('J', [[(4, 6), (4, 0), (0, 0), (0, 2)]]),
    ('K', [[(0, 0), (0, 6)], [(4, 6), (0, 3), (4, 0)]]),
    ('L', [[(0, 6), (0, 0), (4, 0)]]),
    ('M', [[(0, 0), (0, 6), (2, 3), (4, 6), (4, 0)]]),
    ('N', [[(0, 0), (0, 6), (4, 0), (4, 6)]]),
    ('O', [[(0, 0), (0, 6), (4, 6), (4, 0), (0, 0)]]),
    ('P', [[(0, 0), (0, 6), (4, 6), (4, 3), (0, 3)]]),
    ('Q', [[(0, 0), (0, 6), (4, 6), (4, 0), (0, 0)], [(2, 2), (4, 0)]]),
    ('R', [[(0, 0), (0, 6), (4, 6), (4, 3), (0, 3), (4, 0)]]),
    ('S', [[(4, 6), (0, 6), (0, 3), (4, 3), (4, 0), (0, 0)]]),
    ('T', [[(0, 6), (4, 6)], [(2, 6), (2, 0)]]),
    ('U', [[(0, 6), (0, 0), (4, 0), (4, 6)]]),
    ('V', [[(0, 6), (2, 0), (4, 6)]]),
    ('W', [[(0, 6), (1, 0), (2, 3), (3, 0), (4, 6)]]),
    ('X', [[(0, 0), (4, 6)], [(0, 6), (4, 0)]]),
    ('Y', [[(0, 6), (2, 3), (4, 6)], [(2, 3), (2, 0)]]),
    ('Z', [[(0, 6), (4, 6), (0, 0), (4, 0)]]),
    ('0', [[(0, 0), (0, 6), (4, 6), (4, 0), (0, 0)], [(0, 0), (4, 6)]]),
    ('1', [[(1, 5), (2, 6), (2, 0)], [(1, 0), (3, 0)]]),
    ('2', [[(0, 6), (4, 6), (4, 3), (0, 3), (0, 0), (4, 0)]]),
    ('3', [[(0, 6), (4, 6), (4, 0), (0, 0)], [(0, 3), (4, 3)]]),
    ('4', [[(0, 6), (0, 3), (4, 3)], [(4, 6), (4, 0)]]),
    ('5', [[(4, 6), (0, 6), (0, 3), (4, 3), (4, 0), (0, 0)]]),
    ('6', [[(4, 6), (0, 6), (0, 0), (4, 0), (4, 3), (0, 3)]]),
    ('7', [[(0, 6), (4, 6), (1, 0)]]),
    ('8', [[(0, 0), (0, 6), (4, 6), (4, 0), (0, 0)], [(0, 3), (4, 3)]]),
    ('9', [[(4, 3), (0, 3), (0, 6), (4, 6), (4, 0), (0, 0)]]),
    ('-', [[(1, 3), (3, 3)]]),
    ('+', [[(1, 3), (3, 3)], [(2, 2), (2, 4)]]),
    ('/', [[(0, 0), (4, 6)]]),
    ('.', [[(2, 0), (2, 1)]]),
    (' ', []) ]

/-- The glyph of a character; small letters share those of the capitals. -/
def glyph? (c : Char) : Option Glyph := glyphs.lookup c.toUpper

variable {α : Type} [Scalar α]

/--
The width of a text from the left edge of its first glyph to the right edge of
its last. A size below zero has no width.
-/
def width (content : String) (size : α) : α :=
  match content.length with
  | 0 => Scalar.ofNat 0
  | last + 1 =>
    let unit := Scalar.greater (Scalar.ofNat 0) size / Scalar.ofNat capHeight
    (Scalar.ofNat last * Scalar.ofNat advance + Scalar.ofNat glyphWidth) * unit

/-- One stroke on the work surface; a grid unit is `unit` long, and up is towards smaller `y`. -/
def place (left baseline unit : α) (stroke : Stroke) : List (Point α) :=
  stroke.map fun (across, up) =>
    ⟨left + Scalar.ofNat across * unit, baseline - Scalar.ofNat up * unit⟩

/-- The strokes of the character at one position, none where the font has no glyph. -/
def strokesAt (origin : Point α) (size : α) (position : Nat) (c : Char) : List (List (Point α)) :=
  let unit := size / Scalar.ofNat capHeight
  let left := origin.x + Scalar.ofNat position * Scalar.ofNat advance * unit
  ((glyph? c).getD []).map (place left origin.y unit)

/-- The strokes of a text whose baseline starts at `origin`, character by character. -/
def layout (content : String) (origin : Point α) (size : α) : List (List (Point α)) :=
  content.toList.zipIdx.flatMap fun (c, position) => strokesAt origin size position c

end Milling.Lettering
