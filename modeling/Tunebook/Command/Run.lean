import Tunebook.Compilation
import Tunebook.Settings

namespace Tunebook.Command

inductive RunError where
  | settings (error : SettingsError)
  | logLevel (directive : String) (causes : List String)
  | unreadable (path : String) (cause : FileError)
  | tune (path : String) (error : TuneError)
  | unwritable (path : String) (cause : FileError)

/-- Each error is worded as what failed, then why. Errors that are worded with their cause are
followed by it once more. -/
def RunError.message : RunError → String
  | settings (.unreadable path cause) =>
    "Could not load configuration: " ++ (SettingsError.unreadable path cause).message ++ ": " ++
      cause.text
  | settings error => "Could not load configuration: " ++ error.message
  | logLevel directive causes =>
    ": ".intercalate (("Invalid log level \"" ++ directive ++ "\"") :: causes)
  | unreadable path cause => "Could not read file \"" ++ path ++ "\": " ++ cause.text
  | tune path error => "Could not parse file \"" ++ path ++ "\": " ++ error.message
  | unwritable path cause => "Could not write \"" ++ path ++ "\": " ++ cause.text

inductive Exit where
  | success
  | failure
  /-- The arguments are wrong, or a check found something. -/
  | rejected
  /-- The tune has a note that no pitch can stand for, or a call did not come back. -/
  | aborted
deriving DecidableEq

def Exit.code : Exit → UInt8
  | success => 0
  | failure => 1
  | rejected => 2
  | aborted => 101

def summary (c : Compilation) : String :=
  let t := c.tune
  "Index Number: " ++ toString t.index ++ "\n" ++
    "Title: " ++ t.title ++ "\n" ++
    "Composer: " ++ t.composer.getD "" ++ "\n" ++
    "Default Length: " ++ t.defaultLength.written ++ "\n" ++
    "Meter: " ++ t.meter.written ++ "\n" ++
    "Tempo: " ++ toString t.tempo ++ "\n" ++
    "Key: " ++ t.key.code ++ "\n" ++
    "Checking musical piece for well-formedness....\n" ++ Feedback.report c.feedback

def eventLine (e : NoteEvent) : String :=
  toString e.pitch.midiKey ++ " " ++ toString e.start ++ " " ++ toString e.duration ++ "\n"

/-- The tune's path with the extension of MIDI files, moved to the directory if there is one. -/
def defaultOutput (file : String) (directory : Option String) : String :=
  let output := Path.withExtension file "mid"
  match directory, Path.fileName? output with
  | some directory, some name => Path.join directory name
  | _, _ => output

def outputPath (args : Arguments) (settings : Settings) : String :=
  args.output.getD (defaultOutput args.file settings.directory)

/-- Arguments win over settings. -/
def midiParams (args : Arguments) (settings : Settings) : Midi.Params where
  velocity := args.velocity.getD settings.velocity
  channel := args.channel.getD settings.channel
  program := args.program.or settings.program
  tempo := args.tempo

def logLevel (args : Arguments) (settings : Settings) : String :=
  match args.verbosity with
  | 0 => settings.logLevel
  | 1 => "debug"
  | _ => "trace"

variable {m : Type → Type} [Monad m]

def finish (host : Host m) (args : Arguments) (settings : Settings) (c : Compilation) :
    m (Except RunError Exit) := do
  host.print (summary c)
  if args.check then
    return .ok (if c.feedback.isEmpty then .success else .rejected)
  host.print ("Ticks per quarter note: " ++ toString c.ticksPerQuarter ++ "\n")
  if args.events then
    host.print (String.join (c.events.map eventLine))
  let path := outputPath args settings
  match ← host.write path ⟨(c.midi (midiParams args settings)).toArray⟩ with
  | .error cause => return .error (.unwritable path cause)
  | .ok () =>
    host.print ("Wrote " ++ path ++ "\n")
    return .ok .success

def compile (host : Host m) (args : Arguments) (settings : Settings) :
    m (Except RunError Exit) := do
  match ← host.readText args.file with
  | .error cause => return .error (.unreadable args.file cause)
  | .ok text =>
    match Compilation.ofText text with
    | .error (.octaveTooHigh _) => return .ok .aborted
    | .error e => return .error (.tune args.file e)
    | .ok c => finish host args settings c

/-- Starts to log at a level, as far as the environment asks for nothing else. There is no result
if a call does not come back. -/
def startLog (lib : Libraries) (host : Host m) (env : Environment) (level : String) :
    m (Option (Except RunError Unit)) := do
  let review := lib.reviewLog env
  host.complain review.1
  if review.2 then
    return (lib.directive? level).map fun result => result.mapError (.logLevel level)
  else return none

def proceed (host : Host m) (args : Arguments) (settings : Settings) :
    Option (Except RunError Unit) → m (Except RunError Exit)
  | none => return .ok .aborted
  | some (.error e) => return .error e
  | some (.ok ()) => compile host args settings

/-- Everything a run does once it has its arguments. -/
def perform (lib : Libraries) (host : Host m) (env : Environment) (args : Arguments) :
    m (Except RunError Exit) := do
  match ← Settings.load lib host env args.config with
  | .error e => return .error (.settings e)
  | .ok loaded =>
    let started ← startLog lib host env (logLevel args loaded.settings)
    proceed host args loaded.settings started

def versionText : String :=
  "abcplay 0.1.0\n"

def helpText : String :=
  "Compile ABC notation to MIDI\n\nUsage: abcplay [OPTIONS] <FILE>\n\nArguments:\n" ++
    "  <FILE>  ABC file to compile\n\nOptions:\n" ++
    "  -o, --output <OUTPUT>      Where to write the MIDI file (default: FILE with a .mid extension)\n" ++
    "      --config <CONFIG>      Config file, replacing ./abcplay.toml [env: ABCPLAY_CONFIG=]\n" ++
    "      --velocity <VELOCITY>  Note velocity (1-127)\n" ++
    "      --channel <CHANNEL>    MIDI channel (0-15, 9 for GM drums)\n" ++
    "      --program <PROGRAM>    General MIDI program for every track\n" ++
    "      --tempo <TEMPO>        Replace the tune's Q: tempo (quarter notes per minute)\n" ++
    "      --check                Only check well-formedness; exit 2 if there are diagnostics\n" ++
    "      --events               Print the note events as `pitch start duration` lines\n" ++
    "  -v, --verbose...           More logging (-v debug, -vv trace)\n" ++
    "  -h, --help                 Print help\n" ++
    "  -V, --version              Print version\n"

def run (lib : Libraries) (host : Host m) (env : Environment) (args : List String) : m Exit := do
  match lib.arguments Arguments.ranges env args with
  | .error .usage =>
    host.complain "Usage: abcplay [OPTIONS] <FILE>\n"
    return .rejected
  | .error .help =>
    host.print helpText
    return .success
  | .error .version =>
    host.print versionText
    return .success
  | .ok args =>
    match ← perform lib host env args with
    | .error e =>
      host.complain ("Error: " ++ e.message ++ "\n")
      return .failure
    | .ok exit => return exit

end Tunebook.Command
