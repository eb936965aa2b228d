import Tunebook.Text.Numeral
import Tunebook.Tune.Basic
import Tunebook.Tune.Error

namespace Tunebook.Header

def invalid {α : Type} (kind : FieldKind) (value : List Char) (fault : FieldFault) :
    Except TuneError α :=
  .error (.invalidField kind (String.ofList value) fault)

def number? (cs : List Char) : Option UInt32 :=
  (Text.numeral? cs).bind Word.fit32

def index (value : List Char) : Except TuneError UInt32 :=
  match number? value with
  | some n => .ok n
  | none => invalid .index value .notUnsigned

/-- A part of a fraction, or `default` when nothing is written there. -/
def part? (default : UInt32) (cs : List Char) : Option UInt32 :=
  match Text.trim cs with
  | [] => some default
  | part => number? part

/-- Two numbers about a slash. A missing numerator is 1 and a missing denominator is 2. -/
def fraction (kind : FieldKind) (value : List Char) : Except TuneError Duration :=
  match Text.splitOnce '/' value with
  | none => invalid kind value .notFraction
  | some (before, after) =>
    match part? 1 before, part? 2 after with
    | none, _ => invalid kind value .badNumerator
    | some _, none => invalid kind value .badDenominator
    | some num, some den =>
      if den = 0 then invalid kind value .zeroDenominator else .ok ⟨num, den⟩

/-- `C` is common time and `C|` cut time; any other meter is written as two numbers. -/
def meter (value : List Char) : Except TuneError Duration :=
  if value = ['C'] then .ok ⟨4, 4⟩
  else if value = ['C', '|'] then .ok ⟨2, 2⟩
  else
    match Text.splitOnce '/' value with
    | none => invalid .meter value .notMeter
    | some (before, after) =>
      match number? (Text.trim before), number? (Text.trim after) with
      | some num, some den =>
        if num = 0 ∨ den = 0 then invalid .meter value .zeroMeter else .ok ⟨num, den⟩
      | _, _ => invalid .meter value .notMeter

/-- Quarter notes per minute for `rate` beats per minute. -/
def quarters? (beat : Duration) (rate : UInt32) : Option UInt32 := do
  let inQuarters ← beat.mul? ⟨4, 1⟩
  inQuarters.ticks32? rate

/-- A rate in quarter notes per minute, or a beat and its rate about an equals sign. -/
def rate (value : List Char) : Except TuneError UInt32 :=
  match Text.splitOnce '=' value with
  | none =>
    match number? value with
    | some n => .ok n
    | none => invalid .tempo value .notTempo
  | some (before, after) =>
    match fraction .tempo (Text.trim before) with
    | .error e => .error e
    | .ok beat =>
      match number? (Text.trim after) with
      | none => invalid .tempo value .badRate
      | some bpm =>
        match quarters? beat bpm with
        | some n => .ok n
        | none => invalid .tempo value .tempoTooLarge

def tempo (value : List Char) : Except TuneError UInt32 :=
  match rate value with
  | .error e => .error e
  | .ok n => if n = 0 then invalid .tempo value .zeroTempo else .ok n

def voiceName (value : List Char) : Except TuneError String :=
  match Text.firstWord value with
  | [] => invalid .voice value .noVoiceName
  | name => .ok (String.ofList name)

def key (value : List Char) : Except TuneError KeySignature :=
  match KeySignature.ofCode? (String.ofList value) with
  | some k => .ok k
  | none => .error (.invalidKey (String.ofList (Text.trim value)))

/-- Meters below 3/4 count in sixteenths, all others in eighths. -/
def inferredLength (meter : Duration) : Duration :=
  if meter.num.toNat * 4 < 3 * meter.den.toNat then ⟨1, 16⟩ else ⟨1, 8⟩

/-- The first title that is not empty is the main one. -/
def addTitle (t : Tune) (title : String) : Tune :=
  if t.title.isEmpty then { t with title } else { t with subtitles := t.subtitles ++ [title] }

/-- Writes a field into the header. Voices are not part of it. -/
def apply (t : Tune) (kind : FieldKind) (value : String) : Except TuneError Tune :=
  let cs := value.toList
  match kind with
  | .index => (index cs).map fun n => { t with index := n }
  | .title => .ok (addTitle t value)
  | .composer => .ok { t with composer := some value }
  | .key => (key cs).map fun k => { t with key := k }
  | .defaultLength => (fraction .defaultLength cs).map fun d => { t with defaultLength := d }
  | .meter => (meter cs).map fun d => { t with meter := d }
  | .tempo => (tempo cs).map fun n => { t with tempo := n }
  | .voice => .ok t

end Tunebook.Header
