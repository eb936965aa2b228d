import Tunebook.Libraries.Pattern

namespace Tunebook.Libraries

inductive LogLevelError where
  | level
  | directive
  | pattern (error : PatternError)
  /-- A part starts or ends inside the bytes of a character. -/
  | split
deriving DecidableEq

namespace LogLevelError

def patternText : PatternError → String
  | .malformed => "error building NFA"
  | .wordEdge =>
    "unsupported regex feature for DFAs: cannot build DFAs for regexes with Unicode word boundaries; switch to ASCII word boundaries, or heuristically enable Unicode word boundaries or use a different regex engine"

def message : LogLevelError → String
  | level =>
    "error parsing level filter: expected one of \"off\", \"error\", \"warn\", \"info\", \"debug\", \"trace\", or a number 0-5"
  | pattern error => "invalid field filter: " ++ patternText error
  | directive | split => "invalid filter directive"

/-- What led to the error, from the nearest cause to the first. -/
def causes : LogLevelError → List String
  | level => [level.message]
  | pattern .malformed =>
    [patternText .malformed, "error parsing regex", "regex parse error:\n"]
  | pattern .wordEdge => [patternText .wordEdge]
  | directive | split => []

end LogLevelError

namespace LogLevel

/-- What follows the first `n` bytes, if a character starts there. -/
def dropBytes? : Nat → List Char → Option (List Char)
  | 0, cs => some cs
  | _, [] => none
  | n, c :: cs => if c.utf8Size ≤ n then dropBytes? (n - c.utf8Size) cs else none

/-- The first `n` bytes, if a character ends there. -/
def takeBytes? : Nat → List Char → Option (List Char)
  | 0, _ => some []
  | _, [] => none
  | n, c :: cs =>
    if c.utf8Size ≤ n then (takeBytes? (n - c.utf8Size) cs).map (c :: ·) else none

def part (text : List Char) (first last : Nat) : Except LogLevelError (List Char) :=
  match (dropBytes? first text).bind (takeBytes? (last - first)) with
  | some cs => .ok cs
  | none => .error .split

def partFrom (text : List Char) (first : Nat) : Except LogLevelError (List Char) :=
  match dropBytes? first text with
  | some cs => .ok cs
  | none => .error .split

def names : List String :=
  ["off", "error", "warn", "info", "debug", "trace"]

/-- A name in any case or a number up to 5. -/
def isLevel (cs : List Char) : Bool :=
  names.contains (String.ofList (cs.map Char.toLower)) ||
    match Text.numeral? cs with
    | some n => n ≤ 5
    | none => false

/-- A level that is left out is the finest. -/
def checkLevel (cs : List Char) : Except LogLevelError Unit :=
  if cs.isEmpty || isLevel cs then .ok () else .error .level

/-- A number in decimal, with or without a sign, a fraction and an exponent, or one of the special
values. -/
def isNumber (cs : List Char) : Bool :=
  let cs := match cs with
    | '+' :: cs | '-' :: cs => cs
    | cs => cs
  let isDigits (cs : List Char) : Bool := cs.all Char.isDigit
  let isExponent : List Char → Bool
    | [] => true
    | _ :: '+' :: cs | _ :: '-' :: cs | _ :: cs => !cs.isEmpty && isDigits cs
  let isMark (c : Char) : Bool := c == 'e' || c == 'E'
  let mantissa := cs.takeWhile fun c => !isMark c
  let digits := match Text.splitOnce '.' mantissa with
    | some (whole, fraction) => whole ++ fraction
    | none => mantissa
  (!digits.isEmpty && isDigits digits && isExponent (cs.dropWhile fun c => !isMark c)) ||
    ["inf", "infinity", "nan"].contains (String.ofList (cs.map Char.toLower))

/-- A value of a field is a boolean, a number or else a pattern. -/
def checkValue (cs : List Char) : Except LogLevelError Unit :=
  if cs == "true".toList || cs == "false".toList || isNumber cs then .ok ()
  else (Pattern.check cs).mapError .pattern

/-- A field has a name, and may have a value after an equals sign. -/
def checkField (cs : List Char) : Except LogLevelError Unit :=
  if cs.isEmpty then .error .directive
  else
    match Text.splitAll '=' cs with
    | _ :: value :: _ => checkValue value
    | _ => .ok ()

/-- How far a directive has been read, and where the part that is being read starts. -/
inductive State where
  | start
  | target
  | span (first : Nat)
  | field (first : Nat)
  | fieldsEnd
  | spanEnd
  | level (first : Nat)
  | complete

def startsTarget (c : Char) : Bool :=
  c == '-' || c == ':' || c == '_' || Text.isAlphanumeric c

/-- The state after the character `c` at the place `i`. -/
def step (text : List Char) (i : Nat) (state : State) (c : Char) : Except LogLevelError State :=
  match state, c with
  | .start, '[' => .ok (.span (i + 1))
  | .start, c => if startsTarget c then .ok .target else .error .directive
  | .target, '=' => (part text 0 i).map fun _ => .level (i + 1)
  | .target, '[' => (part text 0 i).map fun _ => .span (i + 1)
  | .target, ',' => .ok .complete
  | .target, _ => .ok .target
  | .span first, ']' => (part text first i).map fun _ => .spanEnd
  | .span first, '\x7b' => (part text first i).map fun _ => .field (i + 1)
  | .span first, _ => .ok (.span first)
  | .field first, '\x7d' => ((part text first i).bind checkField).map fun _ => .fieldsEnd
  | .field first, ',' => ((part text first i).bind checkField).map fun _ => .field (i + 1)
  | .field first, _ => .ok (.field first)
  | .fieldsEnd, ']' => .ok .spanEnd
  | .spanEnd, '=' => .ok (.level (i + 1))
  | .level first, ',' => ((part text first i).bind checkLevel).map fun _ => .complete
  | .level first, _ => .ok (.level first)
  | _, _ => .error .directive

def steps (text : List Char) (i : Nat) (state : State) : List Char → Except LogLevelError State
  | [] => .ok state
  | c :: cs =>
    match step text i state c with
    | .error e => .error e
    | .ok state => steps text (i + c.utf8Size) state cs

def check (directive : String) : Except LogLevelError Unit :=
  let text := directive.toList
  match steps text 0 .start (Text.trim text) with
  | .error e => .error e
  | .ok (.level first) => (partFrom text first).bind checkLevel
  | .ok .target | .ok .spanEnd | .ok .complete => .ok ()
  | .ok _ => .error .directive

def directives (text : String) : List String :=
  ((Text.splitAll ',' text.toList).filter fun cs => !cs.isEmpty).map String.ofList

end LogLevel

end Tunebook.Libraries
