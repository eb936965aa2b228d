import Tunebook.Files.Path
import Tunebook.Libraries
import Tunebook.Libraries.CommandLine
import Tunebook.Libraries.LogLevel
import Tunebook.Toml.Reader

namespace Tunebook.Libraries

/-- Structures are read from tables, or from lists whose values belong to `keys` in their order. -/
def membersOf? (keys : List String) : Toml.Value → Option Toml.Table
  | .table t => some t
  | .list values => if values.length ≤ keys.length then some (.ofLists keys values) else none
  | _ => none

def byteOf? : Toml.Value → Option UInt8
  | .integer z => if 0 ≤ z then Word.fit8 z.toNat else none
  | _ => none

/-- Moments stand for the text they are written as. -/
def textOf? : Toml.Value → Option String
  | .text s => some s
  | .moment m => some m.text
  | _ => none

/-- The directory of the user. A variable may name another than the machine has. -/
def homeOf? (env : Environment) : Option String :=
  match env.lookup? "HOME" with
  | some path => if path.isEmpty then env.account else some path
  | none => env.account

def directoriesOf? (env : Environment) : Option Directories :=
  (homeOf? env).map fun home =>
    let config := Path.join home ".config"
    match env.lookup? "XDG_CONFIG_HOME" with
    | some path => ⟨home, if Path.isAbsolute path then path else config⟩
    | none => ⟨home, config⟩

def readDirective? (directive : String) : Option (Except (List String) Unit) :=
  match LogLevel.check directive with
  | .ok () => some (.ok ())
  | .error .split => none
  | .error e => some (.error (e.message :: e.causes))

/-- Directives that are none are passed over. The first that cannot be cut into its parts ends the
review. -/
def reviewDirectives : List String → String × Bool
  | [] => ("", true)
  | directive :: directives =>
    match LogLevel.check directive with
    | .ok () => reviewDirectives directives
    | .error .split => ("", false)
    | .error e =>
      let (text, returns) := reviewDirectives directives
      ("ignoring `" ++ directive ++ "`: " ++ e.message ++ "\n" ++ text, returns)

def standard : Libraries where
  table? := Toml.Table.read?
  members? := membersOf?
  byte? := byteOf?
  text? := textOf?
  directories? := directoriesOf?
  arguments := readArguments
  reviewLog env := reviewDirectives (LogLevel.directives ((env.lookup? "RUST_LOG").getD ""))
  directive? := readDirective?

end Tunebook.Libraries
