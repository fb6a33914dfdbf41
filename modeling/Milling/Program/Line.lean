import Milling.Number.Text
import Milling.Text.Lines
import Milling.Toolpath.Path

/-!
# Lines of a milling program

A program is a list of lines: comments, blank lines and instructions to the
machine. Instructions hold numbers; only `text` turns them into digits, so what a
program does can be said without reading text.
-/

namespace Milling

/-- One instruction to the machine. -/
inductive Instruction where
  /-- Coordinates are absolute. -/
  | absolute
  /-- Lengths are in millimetres. -/
  | millimetres
  /-- Arcs lie in the work surface. -/
  | surfacePlane
  /-- The first lift, before anything moves sideways. -/
  | raise (height : Float)
  /-- Travels above the work to where a cut begins. -/
  | travel (target : Point Float)
  /-- Goes down into the work. -/
  | plunge (height feed : Float)
  /-- Cuts in a straight line. -/
  | cutLine (target : Point Float) (feed : Float)
  /-- Cuts along an arc whose centre is given relative to where it begins. -/
  | cutArc (turn : Turn) (target offset : Point Float) (feed : Float)
  /-- Lifts the tool out of the work. -/
  | retract (height : Float)
  | spindleStop
  | programEnd
deriving DecidableEq

/-- One line of a program. -/
inductive Line where
  | comment (text : String)
  | blank
  | instruction (i : Instruction)
deriving DecidableEq

/-- A coordinate with three places. What rounds to zero from below shows no sign. -/
def coordinateText (x : Float) : String :=
  let text := Double.fixed 3 x
  if text = "-0.000" then "0.000" else text

/-- A feed rate: whole numbers without a point, others with three places. -/
def feedText (x : Float) : String :=
  Double.fixed (if Double.isWhole x then 0 else 3) x

/-- The word that begins an arc. -/
def Turn.code : Turn → String
  | .clockwise => "G02"
  | .counterclockwise => "G03"

/-- An instruction as the machine reads it. -/
def Instruction.text : Instruction → String
  | .absolute => "G90         ; Absolute positioning"
  | .millimetres => "G21         ; Millimeter units"
  | .surfacePlane => "G17         ; XY plane"
  | .raise height => "G00 Z" ++ coordinateText height ++ "  ; Raise to safe height"
  | .travel target => "G00 X" ++ coordinateText target.x ++ " Y" ++ coordinateText target.y
  | .plunge height feed => "G01 Z" ++ coordinateText height ++ " F" ++ feedText feed
  | .cutLine target feed =>
    "G01 X" ++ coordinateText target.x ++ " Y" ++ coordinateText target.y ++
      " F" ++ feedText feed
  | .cutArc turn target offset feed =>
    turn.code ++ " X" ++ coordinateText target.x ++ " Y" ++ coordinateText target.y ++
      " I" ++ coordinateText offset.x ++ " J" ++ coordinateText offset.y ++
      " F" ++ feedText feed
  | .retract height => "G00 Z" ++ coordinateText height
  | .spindleStop => "M5          ; Spindle stop"
  | .programEnd => "M30         ; Program end"

namespace Line

/-- A line without its end. -/
def text : Line → String
  | .comment text => "; " ++ text
  | .blank => ""
  | .instruction i => i.text

/-- The text of a program: every line is ended, the last one too. -/
def render (lines : List Line) : String :=
  String.join (lines.map fun line => line.text ++ "\n")

end Line

end Milling
