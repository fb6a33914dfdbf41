import Milling.Document.Mismatch

/-!
# Reading records out of documents

A record can be read from any notation that can give a number, a text and the
fields of a record. The fields are collected in a draft, whatever their order, and
the draft becomes a record when the document's part of the work is over.

A record may also be written as a plain list of its fields in order. Fields that
nobody asked for are ignored, and a field that comes twice is refused, under
whichever of its names.
-/

namespace Milling

/-- A field of a record that is being collected in a draft of type `σ`. -/
structure Field (m : Type → Type) (σ : Type) where
  name : String
  /-- Other names that the field goes by. -/
  aliases : List String
  /-- Whether a record written as a list has to reach this field. -/
  required : Bool
  /-- Whether the draft has a value for the field. -/
  filled : σ → Bool
  /-- Reads a value into the draft. -/
  fill : σ → m σ

namespace Field

/-- Whether a key of the document means this field. -/
def answersTo {m : Type → Type} {σ : Type} (f : Field m σ) (key : String) : Bool :=
  key = f.name || f.aliases.contains key

end Field

/-- A notation that records can be read from. -/
class Decoding (m : Type → Type) extends Monad m where
  number : m Float
  text : m String
  /-- Collects the fields of a record, whose title is what messages call it. -/
  record {σ : Type} : (title : String) → List (Field m σ) → σ → m σ
  /-- Gives up. -/
  refuse {α : Type} : Mismatch → m α

namespace Decoding

variable {m : Type → Type}

/-- What messages call a record that is written as a list. -/
def listTitle (title : String) (size : Nat) : String :=
  title ++ " with " ++ toString size ++ if size = 1 then " element" else " elements"

/-- The value of a field that has to be there. -/
def require [Decoding m] {α : Type} (name : String) : Option α → m α
  | some value => pure value
  | none => refuse (.missingField name)

/-- A required field, read by `read` and kept where `get` and `set` say. -/
def field [Monad m] {σ α : Type} (name : String) (aliases : List String) (read : m α)
    (get : σ → Option α) (set : σ → α → σ) : Field m σ :=
  { name, aliases, required := true
    filled := fun draft => (get draft).isSome
    fill := fun draft => do return set draft (← read) }

end Decoding

end Milling
