import Milling.Json.Record
import Milling.Session.Basic

/-!
# Events as JSON

An event travels as an object with the name of the event and, for those that have
one, a text. The two members may come in either order. A text that comes first is
kept until the name says what to do with it; otherwise it is read directly.
-/

namespace Milling.Event

open Json (Reader Value)

/-- The names of events. -/
def names : List String :=
  ["scene_changed", "manual_edit", "regenerate_requested", "external_annotate"]

/-- The JSON form of an event. -/
def toJson : Event → Value
  | .drawingChanged => .object [("event", .text "scene_changed")]
  | .edited text => .object [("event", .text "manual_edit"), ("text", .text text)]
  | .regenerate => .object [("event", .text "regenerate_requested")]
  | .annotated text => .object [("event", .text "external_annotate"), ("text", .text text)]

/-- What messages call an event. -/
def title : String := "adjacently tagged enum SessionEvent"

/-- An event as far as its name tells. -/
inductive Tag where
  /-- The event is complete; any text it has must be `null`. -/
  | complete (event : Event) (variant : String)
  /-- The event needs a text. -/
  | needsText (make : String → Event)

/-- The tag of a known name. -/
def Tag.ofName (name : String) : Tag :=
  if name = "scene_changed" then .complete .drawingChanged "SceneChanged"
  else if name = "manual_edit" then .needsText .edited
  else if name = "regenerate_requested" then .complete .regenerate "RegenerateRequested"
  else .needsText .annotated

/-- What messages call the text of an event that has none. -/
def Tag.expectedContent (variant : String) : String := "unit variant SessionEvent::" ++ variant

/-- Reads the name of an event. -/
def tag : Reader Tag :=
  Reader.variant names
    (fun name => pure (Tag.ofName name))
    (fun name => do
      Reader.unitAs "unit"
      pure (Tag.ofName name))

/-- Reads the text of an event whose name is known. -/
def content : Tag → Reader Event
  | .complete event variant => do
    Reader.unitAs (Tag.expectedContent variant)
    pure event
  | .needsText make => do
    return make (← Reader.text)

/-- Completes an event with a text that was read before its name. -/
def complete (kept : Value) : Tag → Reader Event
  | .complete event variant =>
    match kept with
    | .null => pure event
    | other => Reader.fail (.mismatch (.wrongType other.found (Tag.expectedContent variant)))
  | .needsText make =>
    match kept with
    | .text text => pure (make text)
    | other => Reader.fail (.mismatch (.wrongType other.found "a string"))

/-- An event without a text. -/
def withoutContent : Tag → Reader Event
  | .complete event _ => pure event
  | .needsText _ => Reader.fail (.mismatch (.missingField "text"))

/-- The members of an event that have been read. -/
inductive Progress where
  | nothing
  | tagged (tag : Tag)
  | kept (content : Value)
  | finished (event : Event)

/-- Reads one member of an event. -/
def step (progress : Progress) (key : String) : Reader Progress :=
  if key = "event" then
    match progress with
    | .nothing => do
      Reader.colon
      return .tagged (← tag)
    | .kept kept => do
      Reader.colon
      return .finished (← complete kept (← tag))
    | _ => Reader.fail (.mismatch (.duplicateField "event"))
  else if key = "text" then
    match progress with
    | .nothing => do
      Reader.colon
      return .kept (← Reader.value)
    | .tagged tag => do
      Reader.colon
      return .finished (← content tag)
    | _ => Reader.fail (.mismatch (.duplicateField "text"))
  else do
    Reader.colon
    Reader.ignore
    pure progress

/-- The event that the members of an object make. -/
def finish : Progress → Reader Event
  | .nothing => Reader.fail (.mismatch (.missingField "event"))
  | .kept _ => Reader.fail (.mismatch (.missingField "event"))
  | .tagged tag => withoutContent tag
  | .finished event => pure event

/-- Reads the members of an event up to the end of the object. -/
def object : Reader Event := fun levels s =>
  match Reader.members step (s.length + 1) true .nothing levels s with
  | .error fault => .error fault
  | .ok (progress, rest) =>
    match finish progress levels rest with
    | .error fault => .error fault
    | .ok (event, rest) => do .ok (event, ← Reader.endObject rest)

/-- Reads an element of a list that has to reach it. -/
def element {α : Type} (index : Nat) (r : Reader α) : Reader α := fun levels s =>
  match Reader.nextElement? (index = 0) s with
  | .error fault => .error fault
  | .ok none => .error (.mismatch (.wrongLength index title))
  | .ok (some s) => r levels s

/-- Reads an event that is written as a list of its name and its text. -/
def list : Reader Event := fun levels s =>
  match element 0 tag levels s with
  | .error fault => .error fault
  | .ok (tag, rest) =>
    match element 1 (content tag) levels rest with
    | .error fault => .error fault
    | .ok (event, rest) => do .ok (event, ← Reader.endList rest)

/-- Reads an event. -/
def read : Reader Event := Reader.toValue fun levels s =>
  match s with
  | '[' :: rest => Reader.nested list levels rest
  | '\x7b' :: rest => Reader.nested object levels rest
  | _ => Reader.refuseType title levels s

/-- Reads a document that holds an event. -/
def ofJson (document : String) : Except Json.Fault Event := Reader.run read document

end Milling.Event
