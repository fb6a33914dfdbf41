import Milling.Drawing.Item
import Milling.Text.Quoted

/-!
# Drawings

A drawing is a list of items, and the order of the list is the order of cutting.
Items are found by name. The operations that take a name from outside check it;
`push` is for names that were made for the purpose.
-/

namespace Milling

/-- Items in the order in which they are cut. -/
structure Drawing where
  items : List (Item Float)
deriving DecidableEq

namespace Drawing

/-- Why an operation on a drawing was refused. -/
inductive Fault where
  /-- The name is already in the drawing. -/
  | duplicate (id : String)
  /-- The name is empty or holds a control character. -/
  | invalid (id : String)
  /-- No item has this name. -/
  | unknown (id : String)
deriving DecidableEq, Repr

/-- The refusal in words. -/
def Fault.message : Fault → String
  | .duplicate id => "Duplicate shape id: " ++ id
  | .invalid id => "Invalid shape id: " ++ Text.quoted id
  | .unknown id => "Unknown shape id: " ++ id

/-- A drawing without items. -/
def empty : Drawing := ⟨[]⟩

/-- The names in a drawing, in order. -/
def ids (d : Drawing) : List String := d.items.map Item.id

/-- The item of a given name. -/
def get? (d : Drawing) (id : String) : Option (Item Float) := d.items.find? (·.id = id)

/-- Appends a shape under a name made for it. -/
def push (d : Drawing) (id : String) (shape : Shape Float) : Drawing :=
  ⟨d.items ++ [⟨id, shape⟩]⟩

/-- A pushed item comes last. -/
theorem ids_push (d : Drawing) (id : String) (shape : Shape Float) :
    (d.push id shape).ids = d.ids ++ [id] := by
  simp [ids, push]

/-- Appends an item that brings its own name. -/
def insert (d : Drawing) (item : Item Float) : Except Fault Drawing :=
  if !Item.validId item.id then .error (.invalid item.id)
  else if (d.get? item.id).isSome then .error (.duplicate item.id)
  else .ok ⟨d.items ++ [item]⟩

/-- A drawing of the given items, unless one of them has an invalid or repeated name. -/
def ofItems (items : List (Item Float)) : Except Fault Drawing :=
  items.foldlM insert empty

/-- Puts an item in the place of the first one in the list that has its name. -/
def replaceFirst (item : Item Float) : List (Item Float) → List (Item Float)
  | [] => []
  | head :: rest => if head.id = item.id then item :: rest else head :: replaceFirst item rest

/-- Replaces the item of the same name, which keeps its place in the order. -/
def update (d : Drawing) (item : Item Float) : Except Fault Drawing :=
  if (d.get? item.id).isSome then .ok ⟨replaceFirst item d.items⟩
  else .error (.unknown item.id)

/-- Takes the item of a given name out of the drawing. -/
def remove (d : Drawing) (id : String) : Except Fault (Item Float × Drawing) :=
  match d.get? id with
  | some item => .ok (item, ⟨d.items.eraseP (·.id = id)⟩)
  | none => .error (.unknown id)

end Drawing

end Milling
