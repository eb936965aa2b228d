import Tunebook.Files.Path
import Tunebook.Libraries
import Tunebook.Midi.File
import Tunebook.Text.Numeral
import Tunebook.Word

namespace Tunebook

structure Settings where
  velocity : UInt8
  channel : UInt8
  program : Option UInt8
  /-- Where files are written; beside the tune when there is none. -/
  directory : Option String
  logLevel : String
deriving DecidableEq

inductive SettingsError where
  | unreadable (path : String) (cause : FileError)
  /-- The file is no table, or a value in it is not of its kind. -/
  | malformed (path : String)
  | outOfRange (key : String) (value low high : UInt8)
deriving DecidableEq

def SettingsError.message : SettingsError → String
  | unreadable path cause => "Failed to read config file " ++ path ++ ": " ++ cause.text
  | malformed path => "Failed to parse config file " ++ path
  | outOfRange key value low high =>
    key ++ " = " ++ toString value ++ " is out of range " ++ toString low ++ "-" ++ toString high

namespace Settings

def standard : Settings where
  velocity := Midi.Params.standard.velocity
  channel := Midi.Params.standard.channel
  program := Midi.Params.standard.program
  directory := none
  logLevel := "warn"

/-- The part of a table that has a name; one that is not there is empty. -/
def section? (lib : Libraries) (t : Toml.Table) (name : String) (keys : List String) :
    Option Toml.Table :=
  match t.get? name with
  | none => some .nil
  | some v => lib.members? keys v

/-- The value of a key, or `default` without one; nothing if the value is of the wrong kind. -/
def field? {α : Type} (read : Toml.Value → Option α) (default : α) (t : Toml.Table)
    (key : String) : Option α :=
  match t.get? key with
  | none => some default
  | some v => read v

/-- The settings of a table. Keys that are no settings are passed over. -/
def ofTable? (lib : Libraries) (t : Toml.Table) : Option Settings := do
  let midi ← section? lib t "midi" ["velocity", "channel", "program"]
  let output ← section? lib t "output" ["directory", "log_level"]
  let velocity ← field? lib.byte? standard.velocity midi "velocity"
  let channel ← field? lib.byte? standard.channel midi "channel"
  let program ← field? (fun v => (lib.byte? v).map some) standard.program midi "program"
  let directory ← field? (fun v => (lib.text? v).map some) standard.directory output "directory"
  let logLevel ← field? lib.text? standard.logLevel output "log_level"
  return ⟨velocity, channel, program, directory, logLevel⟩

/-- Puts the user's directory in the place of a leading `~/`. -/
def expand (home : Option String) (path : String) : String :=
  match home, path.toList with
  | some home, '~' :: '/' :: rest => Path.join home (String.ofList rest)
  | _, _ => path

/-- A byte from an environment variable. A value that is no byte counts as unset. -/
def variableByte? (env : Environment) (name : String) : Option UInt8 := do
  let value ← env.lookup? name
  let n ← Text.numeral? value.toList
  Word.fit8 n

structure Overridden where
  settings : Settings
  names : List String

def override {α : Type} (name : String) (value : Option α) (put : Settings → α → Settings)
    (o : Overridden) : Overridden :=
  match value with
  | none => o
  | some a => ⟨put o.settings a, o.names ++ [name]⟩

def ofEnvironment (lib : Libraries) (env : Environment) (s : Settings) : Overridden :=
  let o : Overridden := ⟨s, []⟩
  let o := override "ABCPLAY_VELOCITY" (variableByte? env "ABCPLAY_VELOCITY")
    (fun s v => { s with velocity := v }) o
  let o := override "ABCPLAY_CHANNEL" (variableByte? env "ABCPLAY_CHANNEL")
    (fun s v => { s with channel := v }) o
  let o := override "ABCPLAY_PROGRAM" (variableByte? env "ABCPLAY_PROGRAM")
    (fun s v => { s with program := some v }) o
  let o := override "ABCPLAY_OUTPUT_DIR" (env.lookup? "ABCPLAY_OUTPUT_DIR")
    (fun s v => { s with directory := some (expand (lib.home? env) v) }) o
  override "ABCPLAY_LOG_LEVEL" (env.lookup? "ABCPLAY_LOG_LEVEL")
    (fun s v => { s with logLevel := v }) o

def checkRange (key : String) (value low high : UInt8) : Except SettingsError Unit :=
  if low ≤ value ∧ value ≤ high then .ok () else .error (.outOfRange key value low high)

/-- Velocities and programs fit a data byte, channels a half of one. -/
def validate (s : Settings) : Except SettingsError Unit := do
  checkRange "midi.velocity" s.velocity 1 127
  checkRange "midi.channel" s.channel 0 15
  match s.program with
  | none => return ()
  | some program => checkRange "midi.program" program 0 127

structure Loaded where
  settings : Settings
  files : List String
  overrides : List String
deriving DecidableEq

/-- The settings of the tables of `files`, the later over the earlier, and of the environment. -/
def ofTables (lib : Libraries) (env : Environment) (files : List (String × Toml.Table)) :
    Except SettingsError Loaded :=
  let paths := files.map fun file => file.1
  match ofTable? lib (files.foldl (fun base file => base.merge file.2) .nil) with
  | none => .error (.malformed (paths.getLastD ""))
  | some s =>
    let o := ofEnvironment lib env { s with directory := s.directory.map (expand (lib.home? env)) }
    match o.settings.validate with
    | .error e => .error e
    | .ok () => .ok ⟨o.settings, paths, o.names⟩

def midiParams (s : Settings) : Midi.Params :=
  ⟨s.velocity, s.channel, s.program, none⟩

def userFile? (lib : Libraries) (env : Environment) : Option String :=
  (lib.directories? env).map fun directories =>
    Path.join directories.config "abcplay/config.toml"

def localFile : String :=
  "abcplay.toml"

variable {m : Type → Type} [Monad m]

/-- The files to load. The usual ones are passed over when they are not there, but a file that
was asked for has to be. -/
def files (lib : Libraries) (host : Host m) (env : Environment) (asked : Option String) :
    m (List String) := do
  let user ← (userFile? lib env).toList.filterM host.isPresent
  match asked with
  | some path => return user ++ [path]
  | none => return user ++ (← [localFile].filterM host.isPresent)

def loadTable (lib : Libraries) (host : Host m) (path : String) :
    m (Except SettingsError Toml.Table) := do
  match ← host.readText path with
  | .error cause => return .error (.unreadable path cause)
  | .ok text =>
    match lib.table? text with
    | none => return .error (.malformed path)
    | some t => return .ok t

def loadTables (lib : Libraries) (host : Host m) :
    List String → m (Except SettingsError (List (String × Toml.Table)))
  | [] => return .ok []
  | path :: paths => do
    match ← loadTable lib host path with
    | .error e => return .error e
    | .ok t =>
      match ← loadTables lib host paths with
      | .error e => return .error e
      | .ok rest => return .ok ((path, t) :: rest)

/-- Loads the settings, from the file `asked` for in place of the local one. -/
def load (lib : Libraries) (host : Host m) (env : Environment) (asked : Option String) :
    m (Except SettingsError Loaded) := do
  match ← loadTables lib host (← files lib host env asked) with
  | .error e => return .error e
  | .ok tables => return ofTables lib env tables

end Settings

end Tunebook
