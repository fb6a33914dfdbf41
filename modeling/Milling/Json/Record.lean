import Milling.Document.Decoding
import Milling.Json.Reader

/-!
# Records in JSON

A record is written as an object, or as a list of its fields in order. In an
object a key that comes twice is refused before its value is looked at.
-/

namespace Milling.Json.Reader

variable {σ : Type}

/-- Reads one member of an object into the draft of a record. -/
def fieldStep (fields : List (Field Reader σ)) (draft : σ) (key : String) : Reader σ :=
  match fields.find? (·.answersTo key) with
  | none => do
    colon
    ignore
    pure draft
  | some f =>
    if f.filled draft then fail (.mismatch (.duplicateField f.name))
    else do
      colon
      f.fill draft

/-- Reads the fields of a record in order, as far as the list goes. -/
def fieldsInOrder (title : String) (index : Nat) (draft : σ) : List (Field Reader σ) → Reader σ
  | [] => pure draft
  | f :: fields => fun levels s =>
    match nextElement? (index = 0) s with
    | .error fault => .error fault
    | .ok none =>
      match (f :: fields).zipIdx.find? (·.1.required) with
      | some (_, ahead) => .error (.mismatch (.wrongLength (index + ahead) title))
      | none => .ok (draft, s)
    | .ok (some s) =>
      match f.fill draft levels s with
      | .error fault => .error fault
      | .ok (draft, rest) => fieldsInOrder title (index + 1) draft fields levels rest

/-- The members of a record up to the end of the object. -/
def recordObject (fields : List (Field Reader σ)) (draft : σ) : Reader σ := fun levels s =>
  match members (fieldStep fields) (s.length + 1) true draft levels s with
  | .error fault => .error fault
  | .ok (draft, rest) => do .ok (draft, ← endObject rest)

/-- The elements of a record up to the end of the list. -/
def recordList (title : String) (fields : List (Field Reader σ)) (draft : σ) : Reader σ :=
  fun levels s =>
    match fieldsInOrder (Decoding.listTitle title fields.length) 0 draft fields levels s with
    | .error fault => .error fault
    | .ok (draft, rest) => do .ok (draft, ← endList rest)

/-- Collects the fields of a record in a draft. -/
def record (title : String) (fields : List (Field Reader σ)) (draft : σ) : Reader σ :=
  toValue fun levels s =>
    match s with
    | '[' :: rest => nested (recordList title fields draft) levels rest
    | '\x7b' :: rest => nested (recordObject fields draft) levels rest
    | _ => refuseType title levels s

instance : Decoding Reader where
  number := number
  text := text
  record := record
  refuse m := fail (.mismatch m)

end Milling.Json.Reader
