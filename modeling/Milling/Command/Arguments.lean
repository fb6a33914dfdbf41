/-!
# Command line arguments

There are two commands, each with options of its own. An option is given as
`--name value` or `--name=value`, a switch as `--name`, and neither twice. A value
that stands alone must not look like an option, although a lone dash is a value.
-/

namespace Milling

/-- What to do. -/
inductive Command where
  /-- Compiles the drawing in `scene` to a file, or shows the program. -/
  | generate (scene : String) (config? output? : Option String)
  /-- Writes the standard configuration to a file. -/
  | initConfig (path? : Option String) (force : Bool)
deriving DecidableEq, Repr

namespace Command

/-- The names that a command understands. -/
structure Options where
  /-- Options with a value. -/
  valued : List String
  switches : List String

/-- The options that were given; a switch has an empty value. -/
abbrev Given := List (String × String)

/-- Whether an argument can be a value on its own. -/
def standsAlone (argument : String) : Bool :=
  argument = "-" || (argument ≠ "" && !argument.startsWith "-")

/-- The name in an argument that is an option, and the value if it is attached. -/
def option? (argument : String) : Option (String × Option String) :=
  match argument.toList with
  | '-' :: '-' :: c :: rest =>
    let body := c :: rest
    let name := String.ofList (body.takeWhile (· ≠ '='))
    match body.dropWhile (· ≠ '=') with
    | [] => some (name, none)
    | _ :: value => some (name, some (String.ofList value))
  | _ => none

/-- One more option, unless it was given before. -/
def Given.add? (given : Given) (name value : String) : Option Given :=
  if (given.lookup name).isSome then none else some ((name, value) :: given)

/-- Reads the options of a command. Two dashes may stand at the end. -/
def Options.parse? (o : Options) (given : Given) : List String → Option Given
  | [] => some given
  | argument :: rest =>
    match option? argument with
    | none => if argument = "--" ∧ rest = [] then some given else none
    | some (name, some value) =>
      if o.valued.contains name ∧ value ≠ "" then do o.parse? (← given.add? name value) rest
      else none
    | some (name, none) =>
      if o.switches.contains name then do o.parse? (← given.add? name "") rest
      else if o.valued.contains name then
        match rest with
        | value :: rest =>
          if standsAlone value then do o.parse? (← given.add? name value) rest else none
        | [] => none
      else none

/-- The options of `generate`. -/
def generateOptions : Options := { valued := ["scene", "config", "output"], switches := [] }

/-- The options of `init-config`. -/
def initConfigOptions : Options := { valued := ["path"], switches := ["force"] }

/-- The command that some arguments ask for, if they do so correctly. -/
def parse? : List String → Option Command
  | [] => none
  | name :: arguments =>
    if name = "generate" then do
      let given ← generateOptions.parse? [] arguments
      return .generate (← given.lookup "scene") (given.lookup "config") (given.lookup "output")
    else if name = "init-config" then do
      let given ← initConfigOptions.parse? [] arguments
      return .initConfig (given.lookup "path") (given.lookup "force").isSome
    else none

end Command

end Milling
