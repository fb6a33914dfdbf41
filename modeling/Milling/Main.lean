import Milling.Command.Run

/-!
# The program

The outer layer: commands are run on the disk of the machine that the program runs
on. Exit codes are zero for success, one for a failure and two for arguments that
are not understood.
-/

namespace Milling

open Disk (Files Kind Problem)

namespace Disk

/-- What the system says about a refusal. -/
def Problem.ofError (e : IO.Error) : Problem :=
  match e with
  | .noFileOrDirectory _ _ _ => .missing
  | .alreadyExists _ _ _ => .exists
  | .inappropriateType _ code description =>
    if code = 20 then .notDirectory
    else if code = 21 then .isDirectory
    else .other description
  | .invalidArgument _ code description =>
    if code = 36 then .nameTooLong else .other description
  | refusal => .other (toString refusal)

/-- Runs an action and keeps its refusal. -/
def attempt {α : Type} (action : IO α) : IO (Except Problem α) := do
  match ← action.toBaseIO with
  | .ok a => return .ok a
  | .error e => return .error (.ofError e)

/-- What stands at a path, as far as opening it shows. -/
def look (path : String) : IO (Option Kind) := do
  match ← attempt (do (← IO.FS.Handle.mk path .read).read 1) with
  | .ok _ => return some .file
  | .error .isDirectory => return some .directory
  | .error (.other _) => return some .file
  | .error _ => return none

end Disk

instance : Files IO where
  kind? := Disk.look
  readBytes path := Disk.attempt (do (← IO.FS.Handle.mk path .read).readBinToEnd)
  writeBytes path content := Disk.attempt (IO.FS.writeBinFile path content)
  makeDirectory path := Disk.attempt (IO.FS.createDir path)

/-- Reads a stream up to its end, a part at a time. -/
partial def readStream (stream : IO.FS.Stream) (read : ByteArray) : IO ByteArray := do
  let part ← stream.read 65536
  if part.isEmpty then return read else readStream stream (read ++ part)

/-- Reads everything on standard input. -/
def readInput : IO (Except Problem ByteArray) :=
  Disk.attempt (do readStream (← IO.getStdin) ByteArray.empty)

/-- How commands are called. -/
def usage : String :=
  "Usage: cutplan generate --scene <SCENE> [--config <CONFIG>] [--output <OUTPUT>]\n" ++
  "       cutplan init-config [--path <PATH>] [--force]"

end Milling

open Milling in
/-- Runs the command that the arguments ask for. -/
def main (arguments : List String) : IO UInt32 := do
  match Command.parse? arguments with
  | none =>
    IO.eprintln usage
    return 2
  | some command =>
    let environment : Config.Environment :=
      { home? := ← IO.getEnv "HOME", configHome? := ← IO.getEnv "XDG_CONFIG_HOME" }
    match ← Command.run { environment, input := readInput } command with
    | .ok shown =>
      IO.print shown
      return 0
    | .error fault =>
      IO.eprintln ("Error: " ++ fault.message)
      if let some cause := fault.cause? then
        IO.eprintln ("\nCaused by:\n    " ++ cause)
      return 1
