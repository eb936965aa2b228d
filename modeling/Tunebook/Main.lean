import Tunebook.Command.Run
import Tunebook.Libraries.Standard

namespace Tunebook

def fileError : IO.Error → FileError
  | .noFileOrDirectory .. => .notFound
  | .inappropriateType _ code _ => if code = 20 then .notADirectory else .isADirectory
  | e => .other (toString e)

def machineHost : Host IO where
  isPresent path := do
    try
      discard (IO.FS.Handle.mk path .read)
      return true
    catch e =>
      match fileError e with
      | .notFound | .notADirectory => return false
      | _ => return true
  read path := do
    try
      return .ok (← IO.FS.readBinFile path)
    catch e => return .error (fileError e)
  write path content := do
    try
      IO.FS.writeBinFile path content
      return .ok ()
    catch e => return .error (fileError e)
  print text := do (← IO.getStdout).putStr text
  complain text := do (← IO.getStderr).putStr text

def variableNames : List String :=
  ["HOME", "XDG_CONFIG_HOME", "ABCPLAY_CONFIG", "ABCPLAY_VELOCITY", "ABCPLAY_CHANNEL",
   "ABCPLAY_PROGRAM", "ABCPLAY_OUTPUT_DIR", "ABCPLAY_LOG_LEVEL", "RUST_LOG"]

/-- The number of the user, from what the machine says about a process. -/
def userNumber? (status : String) : Option (List Char) :=
  (Text.splitAll '\n' status.toList).findSome? fun line =>
    match Text.splitAll '\t' line with
    | name :: number :: _ => if name = "Uid:".toList then some number else none
    | _ => none

/-- The directory that a list of accounts has for a user. -/
def accountDirectory? (accounts : String) (user : List Char) : Option String :=
  (Text.splitAll '\n' accounts.toList).findSome? fun line =>
    match Text.splitAll ':' line with
    | [_, _, number, _, _, directory, _] =>
      if number = user then some (String.ofList directory) else none
    | _ => none

def account? : IO (Option String) := do
  try
    let status ← IO.FS.readFile "/proc/self/status"
    let accounts ← IO.FS.readFile "/etc/passwd"
    return (userNumber? status).bind (accountDirectory? accounts)
  catch _ => return none

def environment : IO Environment := do
  let assignments ← variableNames.filterMapM fun name => do
    return (← IO.getEnv name).map fun value => (name, value)
  return ⟨← account?, assignments⟩

end Tunebook

def main (args : List String) : IO UInt32 := do
  let env ← Tunebook.environment
  let exit ← Tunebook.Command.run Tunebook.Libraries.standard Tunebook.machineHost env args
  return exit.code.toUInt32
