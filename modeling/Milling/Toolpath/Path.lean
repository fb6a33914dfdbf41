import Milling.Geometry.Point

/-!
# Paths of the tool's centre

A path is a starting point and the moves made from there, each beginning where
the one before ended. The length of an arc needs a distance, an angle and a full
turn; these come from a `Ruler`, so the rules about sweeps can be read without
asking how an angle is computed.
-/

namespace Milling

/-- The sense in which an arc turns. -/
inductive Turn where
  | clockwise
  | counterclockwise
deriving DecidableEq, Repr

/-- One cutting move, from wherever the tool is. -/
inductive Move (α : Type) where
  | line (target : Point α)
  | arc (target center : Point α) (turn : Turn)
deriving DecidableEq, Repr

/-- A continuous cut. `closed` says that the last move returns to the start. -/
structure Path (α : Type) where
  start : Point α
  moves : List (Move α)
  closed : Bool
deriving DecidableEq, Repr

/-- How lengths and directions are measured. -/
structure Ruler (α : Type) where
  /-- The straight distance between two points. -/
  distance : Point α → Point α → α
  /-- The direction of a point as seen from the first one, within half a turn of zero. -/
  angle : Point α → Point α → α
  /-- A full turn. -/
  fullTurn : α

namespace Ruler

/-- Lengths and angles in double arithmetic, in millimetres and radians. -/
def double : Ruler Float where
  distance p q := p.distance q
  angle p q := Float.atan2 (q.y - p.y) (q.x - p.x)
  fullTurn := Double.ofMagnitude false 0x401921FB54442D18

variable {α : Type} [Scalar α]

/-- An angle brought into one turn from zero. -/
def withinTurn (r : Ruler α) (angle : α) : α :=
  let rest := Scalar.remainder angle r.fullTurn
  if rest < Scalar.zero then rest + Scalar.magnitude r.fullTurn else rest

/--
The angle an arc turns through on its way between two directions. Directions that
coincide, or nearly do, belong to a full turn: an arc that returns to its start is
a circle and not a point.
-/
def sweep (r : Ruler α) (turn : Turn) (first last : α) : α :=
  let angle := r.withinTurn <| match turn with
    | .clockwise => first - last
    | .counterclockwise => last - first
  if angle < Scalar.ofNat 1 / Scalar.ofNat 1000000000 then r.fullTurn else angle

end Ruler

namespace Move

/-- Where a move ends. -/
def target {α : Type} : Move α → Point α
  | .line target => target
  | .arc target _ _ => target

variable {α : Type} [Scalar α]

/-- The length of a move made from a point. -/
def length (r : Ruler α) (origin : Point α) : Move α → α
  | .line target => r.distance origin target
  | .arc target center turn =>
    r.distance center origin * r.sweep turn (r.angle center origin) (r.angle center target)

end Move

namespace Path

/-- The moves of a path, each with the point it starts from. -/
def steps {α : Type} (path : Path α) : List (Point α × Move α) :=
  (path.start :: path.moves.map Move.target).zip path.moves

variable {α : Type} [Scalar α]

/-- The length of the cut, added up move by move from the start. -/
def length (r : Ruler α) (path : Path α) : α :=
  path.steps.foldl (fun total (origin, move) => total + move.length r origin) Scalar.zero

end Path

end Milling
