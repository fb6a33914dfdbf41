import Milling.Config.Machine
import Milling.Drawing.Basic
import Milling.Program.Line
import Milling.Toolpath.Plan

/-!
# Writing programs

A program begins with comments about the machine and the set-up, goes through the
plans in order and ends by stopping the machine. Each plan is introduced by a
comment with the item's name. A path is travelled to, plunged into, cut and left
by lifting the tool; between two paths the tool is therefore always up.
-/

namespace Milling.Program

/-- A name as it may stand in a comment: what could end the line is replaced. -/
def commentText (text : String) : String :=
  String.ofList (text.toList.map fun c => if Text.isControl c then '?' else c)

/-- The lines before the first item. -/
def header (m : Machine) (totalLength : Float) : List Line :=
  [ .comment "Generated by cutplan",
    .comment ("Tool diameter: " ++ coordinateText m.toolDiameter ++ "mm"),
    .comment ("Cut depth: " ++ coordinateText m.cutDepth ++ "mm"),
    .comment ("Feed rate: " ++ feedText m.feedRate ++ " mm/min"),
    .comment ("Safe height: " ++ coordinateText m.safeHeight ++ "mm"),
    .comment ("Total path length: " ++ coordinateText totalLength ++ "mm"),
    .blank,
    .instruction .absolute,
    .instruction .millimetres,
    .instruction .surfacePlane,
    .instruction (.raise m.safeHeight),
    .blank ]

/-- The lines after the last item. -/
def footer : List Line := [.instruction .spindleStop, .instruction .programEnd]

/-- The instruction for one move, from the point where the tool is. -/
def cut (m : Machine) (origin : Point Float) : Move Float → Instruction
  | .line target => .cutLine target m.feedRate
  | .arc target center turn =>
    .cutArc turn target ⟨center.x - origin.x, center.y - origin.y⟩ m.feedRate

/-- The instructions for one path. -/
def ofPath (m : Machine) (path : Path Float) : List Instruction :=
  .travel path.start :: .plunge (-m.cutDepth) m.feedRate ::
    (path.steps.map fun (origin, move) => cut m origin move) ++ [.retract m.safeHeight]

/-- The comment that introduces an item, with the reason if it is left out. -/
def marker (plan : Plan Float) : String :=
  "Shape " ++ commentText plan.id ++ " (" ++ plan.kind.name ++ ")" ++
    match plan.outcome with
    | .ok _ => ""
    | .error fault => " skipped: " ++ fault.message

/-- The lines for one item. -/
def ofPlan (m : Machine) (plan : Plan Float) : List Line :=
  .comment (marker plan) ::
    (plan.paths.flatMap (ofPath m)).map .instruction ++ [.blank]

/-- The length of all cuts of some plans. -/
def totalLength (plans : List (Plan Float)) : Float :=
  Plan.sum (plans.map (Plan.length .double))

/-- The lines of the program for some plans. -/
def ofPlans (m : Machine) (plans : List (Plan Float)) : List Line :=
  header m (totalLength plans) ++ plans.flatMap (ofPlan m) ++ footer

/-- The text of the program for some plans. -/
def emit (m : Machine) (plans : List (Plan Float)) : String := Line.render (ofPlans m plans)

/-- The text of the program that cuts a drawing. -/
def compile (m : Machine) (d : Drawing) : String :=
  emit m (d.items.map (Plan.ofItem m.toolRadius))

end Milling.Program
