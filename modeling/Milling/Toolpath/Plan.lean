import Milling.Drawing.Item
import Milling.Toolpath.Contour

/-!
# Plans

Planning an item gives the paths that cut it or the reason it is left out. A plan
keeps the item's name and kind in either case, because the program mentions every
item.
-/

namespace Milling

/-- What is to be done about one item. -/
structure Plan (α : Type) where
  id : String
  kind : Shape.Kind
  outcome : Except (GeometryFault α) (List (Path α))

namespace Plan

/-- The paths to cut; none for an item that is left out. -/
def paths {α : Type} (plan : Plan α) : List (Path α) :=
  match plan.outcome with
  | .ok paths => paths
  | .error _ => []

variable {α : Type} [Scalar α]

/-- Plans an item for a tool of the given radius. -/
def ofItem (radius : α) (item : Item α) : Plan α :=
  { id := item.id, kind := item.shape.kind, outcome := Contour.ofShape radius item.shape }

/-- The sum of some lengths, from the first to the last. -/
def sum (lengths : List α) : α := lengths.foldl (· + ·) Scalar.zero

/-- The length of all cuts of a plan. -/
def length (r : Ruler α) (plan : Plan α) : α := sum (plan.paths.map (Path.length r))

end Plan

end Milling
