import Milling.Drawing.Item
import Milling.Json.Record

/-!
# Shapes and items as JSON

Single points, shapes and items have a JSON form of their own, in which a shape is
an object whose only key is its kind.
-/

namespace Milling

open Json (Reader Value)

/-! ## Points -/

namespace Point

/-- The JSON form of a point. -/
def toJson (p : Point Float) : Value := .object [("x", .number p.x), ("y", .number p.y)]

/-- The coordinates read so far. -/
structure Draft where
  x : Option Float := none
  y : Option Float := none

variable {m : Type → Type} [Decoding m]

/-- Reads a point. -/
def decode : m (Point Float) := do
  let draft ← Decoding.record "struct Point"
    [ Decoding.field "x" [] Decoding.number Draft.x (fun d x => { d with x := some x }),
      Decoding.field "y" [] Decoding.number Draft.y (fun d y => { d with y := some y }) ]
    {}
  return { x := ← Decoding.require "x" draft.x, y := ← Decoding.require "y" draft.y }

end Point

/-! ## Shapes -/

namespace Shape

/-- The JSON form of a kind is its name. -/
def Kind.toJson (kind : Kind) : Value := .text kind.name

/-- The names of the kinds. -/
def Kind.names : List String := Kind.all.map Kind.name

/-- The kind of a name that is known to be one. -/
def Kind.named (name : String) : Reader Kind :=
  match Kind.ofName? name with
  | some kind => pure kind
  | none => Reader.fail (.mismatch (.unknownVariant name Kind.names))

/-- Reads a kind. -/
def Kind.read : Reader Kind :=
  Reader.variant Kind.names Kind.named fun name => do
    Reader.unitAs "unit"
    Kind.named name

/-- The JSON form of a shape. -/
def toJson : Shape Float → Value
  | .rectangle corner width height =>
    .object [("Rectangle", .object [
      ("x", .number corner.x), ("y", .number corner.y),
      ("width", .number width), ("height", .number height)])]
  | .circle center radius =>
    .object [("Circle", .object [("radius", .number radius), ("center", center.toJson)])]
  | .text origin content size =>
    .object [("Text", .object [
      ("text", .text content), ("x", .number origin.x), ("y", .number origin.y),
      ("font_size", .number size)])]

variable {m : Type → Type} [Decoding m]

/-- The fields of a rectangle read so far. -/
structure RectangleDraft where
  x : Option Float := none
  y : Option Float := none
  width : Option Float := none
  height : Option Float := none

/-- Reads a rectangle. -/
def decodeRectangle : m (Shape Float) := do
  let draft ← Decoding.record "struct DesignRectangle"
    [ Decoding.field "x" [] Decoding.number RectangleDraft.x (fun d x => { d with x := some x }),
      Decoding.field "y" [] Decoding.number RectangleDraft.y (fun d y => { d with y := some y }),
      Decoding.field "width" [] Decoding.number
        RectangleDraft.width (fun d width => { d with width := some width }),
      Decoding.field "height" [] Decoding.number
        RectangleDraft.height (fun d height => { d with height := some height }) ]
    {}
  let x ← Decoding.require "x" draft.x
  let y ← Decoding.require "y" draft.y
  let width ← Decoding.require "width" draft.width
  let height ← Decoding.require "height" draft.height
  return .rectangle ⟨x, y⟩ width height

/-- The fields of a circle read so far. -/
structure CircleDraft where
  radius : Option Float := none
  center : Option (Point Float) := none

/-- Reads a circle. -/
def decodeCircle : m (Shape Float) := do
  let draft ← Decoding.record "struct DesignCircle"
    [ Decoding.field "radius" [] Decoding.number
        CircleDraft.radius (fun d radius => { d with radius := some radius }),
      Decoding.field "center" [] Point.decode
        CircleDraft.center (fun d center => { d with center := some center }) ]
    {}
  let radius ← Decoding.require "radius" draft.radius
  let center ← Decoding.require "center" draft.center
  return .circle center radius

/-- The fields of a text read so far. -/
structure TextDraft where
  text : Option String := none
  x : Option Float := none
  y : Option Float := none
  size : Option Float := none

/-- Reads a text. -/
def decodeText : m (Shape Float) := do
  let draft ← Decoding.record "struct DesignText"
    [ Decoding.field "text" [] Decoding.text
        TextDraft.text (fun d text => { d with text := some text }),
      Decoding.field "x" [] Decoding.number TextDraft.x (fun d x => { d with x := some x }),
      Decoding.field "y" [] Decoding.number TextDraft.y (fun d y => { d with y := some y }),
      Decoding.field "font_size" [] Decoding.number
        TextDraft.size (fun d size => { d with size := some size }) ]
    {}
  let content ← Decoding.require "text" draft.text
  let x ← Decoding.require "x" draft.x
  let y ← Decoding.require "y" draft.y
  let size ← Decoding.require "font_size" draft.size
  return .text ⟨x, y⟩ content size

/-- Reads the fields of a shape of a kind. -/
def decodeKind : Kind → m (Shape Float)
  | .rectangle => decodeRectangle
  | .circle => decodeCircle
  | .text => decodeText

/-- Reads a shape. The bare name of a kind is not enough. -/
def read : Reader (Shape Float) :=
  Reader.variant Kind.names
    (fun _ => Reader.fail (.mismatch (.wrongType .bareVariant "newtype variant")))
    (fun name => do decodeKind (← Kind.named name))

end Shape

/-! ## Items -/

namespace Item

/-- The JSON form of an item. -/
def toJson (item : Item Float) : Value :=
  .object [("id", .text item.id), ("shape", item.shape.toJson)]

/-- The fields of an item read so far. -/
structure Draft where
  id : Option String := none
  shape : Option (Shape Float) := none

/-- Reads an item. -/
def read : Reader (Item Float) := do
  let draft ← Decoding.record "struct DrawingObject"
    [ Decoding.field "id" [] Reader.text Draft.id (fun d id => { d with id := some id }),
      Decoding.field "shape" [] Shape.read
        Draft.shape (fun d shape => { d with shape := some shape }) ]
    {}
  return { id := ← Decoding.require "id" draft.id, shape := ← Decoding.require "shape" draft.shape }

end Item

end Milling
