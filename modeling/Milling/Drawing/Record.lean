import Milling.Drawing.Basic
import Milling.Json.Record

/-!
# Drawings as JSON

A drawing travels as a list of flat records, one for each item, with the name of
the kind in capitals and only those sizes that the kind has. Reading happens in
three stages, and each looks at the whole document before the next begins: the
text is read into records, every record is made into an item, and the items are
put into a drawing.
-/

namespace Milling

open Json (Reader Value)

/-- An item as it travels. The sizes that a kind does not have are left out. -/
structure Record where
  id : String
  kind : String
  x : Float
  y : Float
  width : Option Float := none
  height : Option Float := none
  radius : Option Float := none
  text : Option String := none
  size : Option Float := none
deriving DecidableEq

namespace Record

/-- Why a record is not an item. -/
inductive Fault where
  | emptyId
  | controlInId (id : String)
  | missing (kind id field : String)
  | unknownKind (kind id : String)
deriving DecidableEq, Repr

/-- The fault in words. -/
def Fault.message : Fault → String
  | .emptyId => "Shape id must not be empty"
  | .controlInId id => "Shape id " ++ Text.quoted id ++ " contains control characters"
  | .missing kind id field => kind ++ " shape '" ++ id ++ "' is missing '" ++ field ++ "'"
  | .unknownKind kind id => "Unknown shape type '" ++ kind ++ "' for shape '" ++ id ++ "'"

/-- The record of an item. -/
def ofItem (item : Item Float) : Record :=
  match item.shape with
  | .rectangle corner width height =>
    { id := item.id, kind := "RECTANGLE", x := corner.x, y := corner.y
      width := some width, height := some height }
  | .circle center radius =>
    { id := item.id, kind := "CIRCLE", x := center.x, y := center.y, radius := some radius }
  | .text origin content size =>
    { id := item.id, kind := "TEXT", x := origin.x, y := origin.y
      text := some content, size := some size }

/-- A size that the kind of a record requires. -/
def need (r : Record) (field : String) : Option Float → Except Fault Float
  | some value => .ok value
  | none => .error (.missing r.kind r.id field)

/-- The shape that a record describes. -/
def toShape (r : Record) : Except Fault (Shape Float) :=
  if r.kind = "RECTANGLE" then do
    let width ← r.need "width" r.width
    let height ← r.need "height" r.height
    .ok (.rectangle ⟨r.x, r.y⟩ width height)
  else if r.kind = "CIRCLE" then do
    .ok (.circle ⟨r.x, r.y⟩ (← r.need "radius" r.radius))
  else if r.kind = "TEXT" then do
    .ok (.text ⟨r.x, r.y⟩ (r.text.getD "") (← r.need "fontSize" r.size))
  else .error (.unknownKind r.kind r.id)

/-- The item that a record describes. -/
def toItem (r : Record) : Except Fault (Item Float) :=
  if r.id = "" then .error .emptyId
  else if r.id.toList.any Text.isControl then .error (.controlInId r.id)
  else do .ok { id := r.id, shape := ← r.toShape }

/-- A member with a value, or none without. -/
def member {α : Type} (name : String) (make : α → Value) : Option α → List (String × Value)
  | some value => [(name, make value)]
  | none => []

/-- The JSON form of a record. -/
def toJson (r : Record) : Value :=
  .object <|
    [("id", .text r.id), ("type", .text r.kind), ("x", .number r.x), ("y", .number r.y)] ++
    member "width" .number r.width ++ member "height" .number r.height ++
    member "radius" .number r.radius ++ member "text" .text r.text ++
    member "fontSize" .number r.size

/-- The fields read so far. What is `null` counts as read and is left out all the same. -/
structure Draft where
  id : Option String := none
  kind : Option String := none
  x : Option Float := none
  y : Option Float := none
  width : Option (Option Float) := none
  height : Option (Option Float) := none
  radius : Option (Option Float) := none
  text : Option (Option String) := none
  size : Option (Option Float) := none

/-- A field that may be left out. -/
def spare {α : Type} (name : String) (read : Reader α) (get : Draft → Option (Option α))
    (set : Draft → Option α → Draft) : Field Reader Draft :=
  { Decoding.field name [] (Reader.optional read) get set with required := false }

/-- The fields of a record. -/
def fields : List (Field Reader Draft) :=
  [ Decoding.field "id" [] Reader.text Draft.id (fun d id => { d with id := some id }),
    Decoding.field "type" [] Reader.text Draft.kind (fun d kind => { d with kind := some kind }),
    Decoding.field "x" [] Reader.number Draft.x (fun d x => { d with x := some x }),
    Decoding.field "y" [] Reader.number Draft.y (fun d y => { d with y := some y }),
    spare "width" Reader.number Draft.width (fun d width => { d with width := some width }),
    spare "height" Reader.number Draft.height (fun d height => { d with height := some height }),
    spare "radius" Reader.number Draft.radius (fun d radius => { d with radius := some radius }),
    spare "text" Reader.text Draft.text (fun d text => { d with text := some text }),
    spare "fontSize" Reader.number Draft.size (fun d size => { d with size := some size }) ]

/-- Reads a record. -/
def read : Reader Record := do
  let d ← Decoding.record "struct ShapeData" fields {}
  let id ← Decoding.require "id" d.id
  let kind ← Decoding.require "type" d.kind
  let x ← Decoding.require "x" d.x
  let y ← Decoding.require "y" d.y
  return {
    id, kind, x, y, width := d.width.join, height := d.height.join, radius := d.radius.join
    text := d.text.join, size := d.size.join }

end Record

namespace Drawing

/-- Why a document is not a drawing. -/
inductive DocumentFault where
  /-- The text could not be read into records. -/
  | text (fault : Json.Fault)
  /-- A record is not an item. -/
  | record (fault : Record.Fault)
  /-- The items do not make a drawing. -/
  | drawing (fault : Drawing.Fault)
deriving DecidableEq

/-- The fault in words; what is wrong with the text itself is told separately. -/
def DocumentFault.message : DocumentFault → String
  | .text _ => "Failed to parse scene JSON"
  | .record fault => fault.message
  | .drawing fault => fault.message

/-- The document that holds a drawing. -/
def toJson (d : Drawing) : String :=
  (Value.list (d.items.map fun item => (Record.ofItem item).toJson)).toLines

/-- The drawing that some records describe. -/
def ofRecords (records : List Record) : Except DocumentFault Drawing := do
  let items ← (records.mapM Record.toItem).mapError .record
  (ofItems items).mapError .drawing

/-- The drawing in a document. -/
def ofJson (document : String) : Except DocumentFault Drawing := do
  ofRecords (← (Reader.run (Reader.list Record.read) document).mapError .text)

end Drawing

end Milling
