import Tunebook.Command.Arguments
import Tunebook.Files.Host
import Tunebook.Toml.Table

namespace Tunebook

structure Directories where
  home : String
  config : String

/-- Functions of other authors that the program calls. -/
structure Libraries where
  table? : String → Option Toml.Table
  /-- What a value holds for the keys of a structure. -/
  members? : List String → Toml.Value → Option Toml.Table
  byte? : Toml.Value → Option UInt8
  text? : Toml.Value → Option String
  directories? : Environment → Option Directories
  /-- Reads a command line whose bytes have to be in their ranges. -/
  arguments : Command.Ranges → Environment → List String → Except Command.Stop Command.Arguments
  /-- What there is to say about the log directives of the environment, and whether the call comes
  back. -/
  reviewLog : Environment → String × Bool
  /-- Reads a log directive, or gives the causes for which it is none, the nearest first. There is
  no result if the call does not come back. -/
  directive? : String → Option (Except (List String) Unit)

def Libraries.home? (lib : Libraries) (env : Environment) : Option String :=
  (lib.directories? env).map fun directories => directories.home

end Tunebook
