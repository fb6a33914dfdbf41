import Milling.Document.Decoding
import Milling.Toml.Reader

/-!
# Records in TOML

Records are read out of a document that has been read as a whole. A record is a
table, or a list of its fields in order; items of the list beyond the fields are
ignored. A moment looks like a table to those who want one, but has none of the
fields that anybody asks for.
-/

namespace Milling.Toml

/-- Reads something out of a value. -/
def Decoder (α : Type) : Type := Value → Except Mismatch α

namespace Decoder

instance : Monad Decoder where
  pure a := fun _ => .ok a
  bind d f := fun v =>
    match d v with
    | .ok a => f a v
    | .error fault => .error fault

variable {α σ : Type}

/-- Refuses a value of the wrong type. -/
def refuseType (expected : String) : Decoder α := fun v => .error (.wrongType v.found expected)

/-- Reads any number as a double. -/
def number : Decoder Float := fun v =>
  match v with
  | .integer i => .ok (Double.ofInt i)
  | .number x => .ok x
  | v => refuseType "f64" v

/-- Reads a text. -/
def text : Decoder String := fun v =>
  match v with
  | .text s => .ok s
  | v => refuseType "a string" v

/-- Reads one member of a table into the draft of a record. -/
def fieldStep (fields : List (Field Decoder σ)) (draft : σ) (member : String × Value) :
    Except Mismatch σ :=
  match fields.find? (·.answersTo member.1) with
  | none => .ok draft
  | some f =>
    if f.filled draft then .error (.duplicateField f.name)
    else f.fill draft member.2

/-- Reads the fields of a record in order, as far as the list goes. -/
def fieldsInOrder (title : String) (index : Nat) (draft : σ) :
    List (Field Decoder σ) → List Value → Except Mismatch σ
  | [], _ => .ok draft
  | f :: fields, [] =>
    match (f :: fields).zipIdx.find? (·.1.required) with
    | some (_, ahead) => .error (.wrongLength (index + ahead) title)
    | none => .ok draft
  | f :: fields, v :: rest => do
    fieldsInOrder title (index + 1) (← f.fill draft v) fields rest

/-- Collects the fields of a record in a draft. -/
def record (title : String) (fields : List (Field Decoder σ)) (draft : σ) : Decoder σ := fun v =>
  match v with
  | .table members => members.foldlM (fieldStep fields) draft
  | .list items => fieldsInOrder (Decoding.listTitle title fields.length) 0 draft fields items
  | .moment => .ok draft
  | v => refuseType title v

instance : Decoding Decoder where
  number := number
  text := text
  record := record
  refuse m := fun _ => .error m

end Decoder

/-! ## Writing -/

/-- Writes a number: positionally, with a zero behind the point of a whole one. -/
def writeNumber (x : Float) : List Char := (Double.pointed x).toList

/-- A table of a written document: its name and its entries, each already written. -/
structure Table where
  name : String
  entries : List (String × List Char)

/-- Writes a table under its header. -/
def Table.write (t : Table) : List Char :=
  '[' :: (t.name.toList ++ ']' :: '\n' ::
    t.entries.flatMap fun (key, value) => key.toList ++ (' ' :: '=' :: ' ' :: (value ++ ['\n'])))

/-- Writes tables with an empty line between each two. -/
def writeTables : List Table → List Char
  | [] => []
  | [t] => t.write
  | t :: rest => t.write ++ '\n' :: writeTables rest

end Milling.Toml
