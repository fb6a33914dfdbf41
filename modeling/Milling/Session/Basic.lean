import Milling.Program.Emit

/-!
# Sessions

A session keeps a drawing, a machine and the text of a program. The text is either
derived, and then follows every change of the drawing or the machine, or it has
been edited by hand, and then only an explicit request derives it again. Changes
to the drawing take effect in both modes; only the text waits.
-/

namespace Milling

/-- Where the text of a session's program comes from. -/
inductive Mode where
  | derived
  | manual
deriving DecidableEq, Repr

/-- What can happen to the program text of a session. -/
inductive Event where
  /-- The drawing or the machine is no longer what it was. -/
  | drawingChanged
  /-- The text was replaced by hand. -/
  | edited (text : String)
  /-- The text is to be derived from the drawing again. -/
  | regenerate
  /-- An explanation is to be put in front of the text. -/
  | annotated (explanation : String)
deriving DecidableEq, Repr

/-- A drawing with the machine and the program text that go with it. -/
structure Session where
  drawing : Drawing
  machine : Machine
  program : String
  mode : Mode
deriving DecidableEq

namespace Session

/-- An explanation as comment lines, followed by an empty line. -/
def commentBlock (explanation : String) : String :=
  String.ofList <|
    Text.joinLines ((Text.splitLines explanation.toList).map fun line => ';' :: ' ' :: line) ++
      ['\n', '\n']

/-- The program that the drawing compiles to, whatever the mode. -/
def derivedProgram (s : Session) : String := Program.compile s.machine s.drawing

/-- A session that starts with a drawing, its program already derived. -/
def start (drawing : Drawing) (machine : Machine) : Session :=
  { drawing, machine, program := Program.compile machine drawing, mode := .derived }

/-- What an event does to a session. -/
def dispatch (s : Session) : Event → Session
  | .drawingChanged =>
    match s.mode with
    | .derived => { s with program := s.derivedProgram }
    | .manual => s
  | .edited text => { s with program := text, mode := .manual }
  | .regenerate => { s with program := s.derivedProgram, mode := .derived }
  | .annotated explanation =>
    { s with program := commentBlock explanation ++ s.program, mode := .manual }

/-- The session with another drawing, and a program that has taken notice of it. -/
def withDrawing (s : Session) (drawing : Drawing) : Session :=
  { s with drawing }.dispatch .drawingChanged

/-- What a user or a document can do to a session. -/
inductive Operation where
  /-- Adds a shape under a name made for it. -/
  | add (id : String) (shape : Shape Float)
  /-- Puts another shape under a name that is there. -/
  | update (item : Item Float)
  | remove (id : String)
  /-- Replaces the whole drawing. -/
  | replace (drawing : Drawing)
  | setMachine (machine : Machine)
  | event (e : Event)

/-- What an operation answers. -/
inductive Answer where
  | done
  | added (id : String)
  | removed (item : Item Float)
  | refused (fault : Drawing.Fault)
deriving DecidableEq

/-- Performs an operation. One that is refused changes nothing. -/
def perform (s : Session) : Operation → Answer × Session
  | .add id shape => (.added id, s.withDrawing (s.drawing.push id shape))
  | .update item =>
    match s.drawing.update item with
    | .ok drawing => (.done, s.withDrawing drawing)
    | .error fault => (.refused fault, s)
  | .remove id =>
    match s.drawing.remove id with
    | .ok (item, drawing) => (.removed item, s.withDrawing drawing)
    | .error fault => (.refused fault, s)
  | .replace drawing => (.done, s.withDrawing drawing)
  | .setMachine machine => (.done, { s with machine }.dispatch .drawingChanged)
  | .event e => (.done, s.dispatch e)

/-- Performs some operations, one after the other. -/
def run (s : Session) (operations : List Operation) : Session :=
  operations.foldl (fun s o => (s.perform o).2) s

end Session

namespace Event

/-- A description of an event for a log. -/
def describe : Event → String
  | .drawingChanged => "Scene changed"
  | .edited text => "Manual edit (" ++ toString text.utf8ByteSize ++ " bytes)"
  | .regenerate => "Regenerate requested"
  | .annotated explanation =>
    "Annotation (" ++ toString (Text.lineCount explanation) ++ " lines)"

end Event

end Milling
