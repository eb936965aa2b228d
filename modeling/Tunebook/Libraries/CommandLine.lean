import Tunebook.Command.Arguments
import Tunebook.Files.Host
import Tunebook.Text.Blank
import Tunebook.Text.Numeral
import Tunebook.Word

namespace Tunebook.Libraries

open Command (Arguments Ranges Stop)

inductive ValueOption where
  | output | config | velocity | channel | program | tempo
deriving DecidableEq

inductive Flag where
  | check | events | verbose | help | version
deriving DecidableEq

inductive Switch where
  | value (option : ValueOption)
  | flag (flag : Flag)
deriving DecidableEq

def Switch.ofName? : String → Option Switch
  | "output" => some (.value .output)
  | "config" => some (.value .config)
  | "velocity" => some (.value .velocity)
  | "channel" => some (.value .channel)
  | "program" => some (.value .program)
  | "tempo" => some (.value .tempo)
  | "check" => some (.flag .check)
  | "events" => some (.flag .events)
  | "verbose" => some (.flag .verbose)
  | "help" => some (.flag .help)
  | "version" => some (.flag .version)
  | _ => none

def Switch.ofLetter? : Char → Option Switch
  | 'o' => some (.value .output)
  | 'v' => some (.flag .verbose)
  | 'h' => some (.flag .help)
  | 'V' => some (.flag .version)
  | _ => none

structure Given where
  file : Option String
  output : Option String
  config : Option String
  velocity : Option UInt8
  channel : Option UInt8
  program : Option UInt8
  tempo : Option UInt32
  check : Bool
  events : Bool
  verbosity : Nat

namespace Given

def none : Given :=
  ⟨.none, .none, .none, .none, .none, .none, .none, false, false, 0⟩

def number? (low high : Nat) (text : String) : Option Nat :=
  match Text.integer? text.toList with
  | some z => if (low : Int) ≤ z ∧ z ≤ (high : Int) then some z.toNat else .none
  | .none => .none

def byte? (range : UInt8 × UInt8) (text : String) : Option UInt8 :=
  (number? range.1.toNat range.2.toNat text).bind Word.fit8

def word? (text : String) : Option UInt32 :=
  (number? 0 (UInt32.size - 1) text).bind Word.fit32

def path? (text : String) : Option String :=
  if text.isEmpty then .none else some text

def once {α : Type} (old : Option α) (new : Option α) (put : Option α → Given) :
    Except Stop Given :=
  match old, new with
  | .none, some a => .ok (put (some a))
  | _, _ => .error .usage

def setValue (g : Given) (r : Ranges) (option : ValueOption) (text : String) : Except Stop Given :=
  match option with
  | .output => once g.output (path? text) fun v => { g with output := v }
  | .config => once g.config (path? text) fun v => { g with config := v }
  | .velocity => once g.velocity (byte? r.velocity text) fun v => { g with velocity := v }
  | .channel => once g.channel (byte? r.channel text) fun v => { g with channel := v }
  | .program => once g.program (byte? r.program text) fun v => { g with program := v }
  | .tempo => once g.tempo (word? text) fun v => { g with tempo := v }

/-- Only verbosity may be asked for more than once. -/
def setFlag (g : Given) : Flag → Except Stop Given
  | .check => if g.check then .error .usage else .ok { g with check := true }
  | .events => if g.events then .error .usage else .ok { g with events := true }
  | .verbose => .ok { g with verbosity := g.verbosity + 1 }
  | .help => .error .help
  | .version => .error .version

def setFile (g : Given) (text : String) : Except Stop Given :=
  once g.file (path? text) fun v => { g with file := v }

/-- Letters after a single dash. An option that takes a value takes the letters after it, or is
returned to wait for the next argument. -/
def setLetters (g : Given) (r : Ranges) : List Char → Except Stop (Given × Option ValueOption)
  | [] => .ok (g, .none)
  | c :: cs =>
    match Switch.ofLetter? c with
    | .none => .error .usage
    | some (.flag flag) =>
      match g.setFlag flag with
      | .error stop => .error stop
      | .ok g => g.setLetters r cs
    | some (.value option) =>
      match cs with
      | [] => .ok (g, some option)
      | '=' :: value => (g.setValue r option (String.ofList value)).map fun g => (g, .none)
      | value => (g.setValue r option (String.ofList value)).map fun g => (g, .none)

/-- A name after two dashes, with or without a value after an equals sign. -/
def setName (g : Given) (r : Ranges) (name : List Char) :
    Except Stop (Given × Option ValueOption) :=
  let (name, value) := match Text.splitOnce '=' name with
    | .none => (name, .none)
    | some (name, value) => (name, some (String.ofList value))
  match Switch.ofName? (String.ofList name), value with
  | some (.value option), some value => (g.setValue r option value).map fun g => (g, .none)
  | some (.value option), .none => .ok (g, some option)
  | some (.flag flag), .none => (g.setFlag flag).map fun g => (g, .none)
  | _, _ => .error .usage

def isSwitch (text : String) : Bool :=
  match text.toList with
  | '-' :: _ :: _ => true
  | _ => false

/-- Reads arguments, `waiting` being the option whose value comes next. -/
def read (g : Given) (r : Ranges) (waiting : Option ValueOption) :
    List String → Except Stop Given
  | [] => if waiting.isSome then .error .usage else .ok g
  | arg :: args =>
    match waiting with
    | some option =>
      if isSwitch arg then .error .usage
      else
        match g.setValue r option arg with
        | .error stop => .error stop
        | .ok g => g.read r .none args
    | .none =>
      match arg.toList with
      | ['-', '-'] => args.foldlM setFile g
      | '-' :: '-' :: name =>
        match g.setName r name with
        | .error stop => .error stop
        | .ok (g, waiting) => g.read r waiting args
      | '-' :: c :: cs =>
        match g.setLetters r (c :: cs) with
        | .error stop => .error stop
        | .ok (g, waiting) => g.read r waiting args
      | _ =>
        match g.setFile arg with
        | .error stop => .error stop
        | .ok g => g.read r .none args

end Given

/-- Reads a command line. The environment may name the settings file. -/
def readArguments (r : Ranges) (env : Environment) (args : List String) :
    Except Stop Arguments := do
  let g ← Given.none.read r none args
  let g ← match g.config, env.lookup? "ABCPLAY_CONFIG" with
    | none, some path => g.setValue r .config path
    | _, _ => .ok g
  match g.file with
  | none => throw .usage
  | some file =>
    return ⟨file, g.output, g.config, g.velocity, g.channel, g.program, g.tempo, g.check, g.events,
      g.verbosity⟩

end Tunebook.Libraries
