import Milling.Session.Basic

/-!
# The assistant

Two services outside the library can help: one makes drawings from a description,
the other explains programs. Both may fail. A failed drawing is reported and
changes nothing; a failed explanation is replaced by a fixed sentence, so that
asking for one always gives something to show. What an explanation becomes is an
event like any other.
-/

namespace Milling.Assistant

/-- Why a service gave no answer. -/
inductive Fault where
  | drawing (reason : String)
  | explanation (reason : String)
deriving DecidableEq, Repr

/-- The fault in words. -/
def Fault.message : Fault → String
  | .drawing reason => "Shape generation failed: " ++ reason
  | .explanation reason => "Explanation failed: " ++ reason

/-- How many characters of a program are shown to the service that explains it. -/
def shownLimit : Nat := 5000

/-- The part of a program that is shown. -/
def shown (program : String) : String := String.ofList (program.toList.take shownLimit)

/-- The explanation that stands for a failure. -/
def unreachable : String := "Error connecting to AI service."

/-- The explanation that stands for an empty answer. -/
def nothingSaid : String := "Could not generate explanation."

/-- The explanation that an answer amounts to. -/
def explanationOf : Except Fault String → String
  | .error _ => unreachable
  | .ok text => if text = "" then nothingSaid else text

variable {m : Type → Type} [Monad m]

/-- Explains a program by means of a service. -/
def explain (service : String → m (Except Fault String)) (program : String) : m String := do
  return explanationOf (← service (shown program))

/-- The event of a program being explained; an empty program is not shown to anyone. -/
def annotation? (service : String → m (Except Fault String)) (program : String) :
    m (Option Event) := do
  if program = "" then return none
  else return some (.annotated (← explain service program))

/-- Asks a service for a drawing to take the place of the current one. -/
def draw (service : String → Drawing → m (Except Fault Drawing)) (request : String)
    (current : Drawing) : m (Except Fault Drawing) :=
  service request current

end Milling.Assistant
