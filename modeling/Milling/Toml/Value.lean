import Milling.Document.Mismatch
import Milling.Toml.Number
import Milling.Toml.Text

/-!
# TOML values and tables

A document is a tree of tables, but it is not written as one: headers and dotted
keys name places in the tree, in any order that does not contradict itself. Some
tables come into being only because something inside them is named, and these may
still be opened once by a header of their own. Tables that were written out, and
tables begun by a dotted key, are closed to headers.
-/

namespace Milling.Toml

/-- A TOML value. -/
inductive Value where
  | text (s : String)
  | integer (i : Int)
  | number (x : Float)
  | boolean (b : Bool)
  | moment
  | list (items : List Value)
  | table (members : List (String × Value))

/-- The value as a message about its type shows it. -/
def Value.found : Value → Found
  | .text s => .text s
  | .integer i => .integer i
  | .number x => .number x
  | .boolean b => .boolean b
  | .moment => .map
  | .list _ => .sequence
  | .table _ => .map

/-- How a table came into being. -/
inductive Origin where
  /-- It has a header of its own. -/
  | header
  /-- Something inside it has a header. -/
  | implied
  /-- A dotted key goes through it. -/
  | dotted
deriving DecidableEq, Repr

/-- A place in a document that is being read. -/
inductive Node where
  | value (v : Value)
  | table (origin : Origin) (members : List (String × Node))
  /-- A list of tables, each opened by a header with double brackets; the last one first. -/
  | tables (last : List (String × Node)) (before : List (List (String × Node)))

/-- The named places of a table, in the order in which they were first named. -/
abbrev Members := List (String × Node)

namespace Members

/-- What a key names. -/
def get? (members : Members) (key : String) : Option Node := members.lookup key

/-- Puts something else in the place that a key names. -/
def put (members : Members) (key : String) (node : Node) : Members :=
  members.map fun m => if m.1 = key then (key, node) else m

/-- Adds a place under a new key. -/
def add (members : Members) (key : String) (node : Node) : Members := members ++ [(key, node)]

/-- Changes the table that the header of a table inside it goes through. -/
def through (change : Members → Option Members) : List String → Members → Option Members
  | [], members => change members
  | key :: path, members =>
    match members.get? key with
    | none => do
      return members.add key (.table .implied (← through change path []))
    | some (.table origin inner) => do
      return members.put key (.table origin (← through change path inner))
    | some (.tables last before) => do
      return members.put key (.tables (← through change path last) before)
    | some (.value _) => none

/-- Gives a value to a key, where `path` is what stands before its last dot. -/
def assign (key : String) (v : Value) : List String → Members → Option Members
  | [], members =>
    match members.get? key with
    | none => some (members.add key (.value v))
    | some _ => none
  | step :: path, members =>
    match members.get? step with
    | none => do return members.add step (.table .dotted (← assign key v path []))
    | some (.table .dotted inner) => do
      return members.put step (.table .dotted (← assign key v path inner))
    | some (.table .implied inner) =>
      if path.isEmpty then none
      else do return members.put step (.table .implied (← assign key v path inner))
    | some (.tables last before) =>
      if path.isEmpty then none
      else do return members.put step (.tables (← assign key v path last) before)
    | some _ => none

/-- Gives values to keys, one after the other. -/
def assignAll (entries : List (List String × String × Value)) (members : Members) :
    Option Members :=
  entries.foldlM (fun members (path, key, v) => assign key v path members) members

/-- Opens a table by a header, with the entries below it. -/
def openTable (key : String) (entries : List (List String × String × Value)) (members : Members) :
    Option Members :=
  match members.get? key with
  | none => do return members.add key (.table .header (← assignAll entries []))
  | some (.table .implied inner) => do
    let opened ← assignAll entries inner
    return Members.add (members.filter fun m => m.1 ≠ key) key (.table .header opened)
  | some _ => none

/-- Opens another table of a list of tables. -/
def openElement (key : String) (entries : List (List String × String × Value))
    (members : Members) : Option Members := do
  let opened ← assignAll entries []
  match members.get? key with
  | none => some (members.add key (.tables opened []))
  | some (.tables last before) => some (members.put key (.tables opened (last :: before)))
  | some _ => none

end Members

mutual

/-- The value that a place has in the end. -/
def Node.toValue : Node → Value
  | .value v => v
  | .table _ members => .table (membersToValues members)
  | .tables last before => .list (tablesToValues before [.table (membersToValues last)])

/-- The values of the members of a table. -/
def membersToValues : List (String × Node) → List (String × Value)
  | [] => []
  | (key, node) :: rest => (key, node.toValue) :: membersToValues rest

/-- The tables of a list in the order in which they were opened, in front of some values. -/
def tablesToValues : List (List (String × Node)) → List Value → List Value
  | [], values => values
  | members :: rest, values => tablesToValues rest (.table (membersToValues members) :: values)

end

end Milling.Toml
