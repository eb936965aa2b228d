import Tunebook.Text.Numeral

namespace Tunebook.Toml

abbrev Chars := List Char

structure Date where
  year : Nat
  month : Nat
  day : Nat
deriving DecidableEq

structure Time where
  hour : Nat
  minute : Nat
  /-- Up to 60, since a minute may have a leap second. -/
  second : Nat
  nanosecond : Nat
deriving DecidableEq

/-- The distance from universal time. -/
inductive Offset where
  | universal
  /-- Minutes to the east, or to the west if there are fewer than none. -/
  | east (minutes : Int)
deriving DecidableEq

inductive Moment where
  | date (d : Date)
  | time (t : Time)
  | dateTime (d : Date) (t : Time) (offset : Option Offset)
deriving DecidableEq

/-- The digits of `n` with zeros before them, `width` characters at least. -/
def padded (width n : Nat) : Chars :=
  let digits := Text.decimal n
  List.replicate (width - digits.length) '0' ++ digits

namespace Date

def isLeap (year : Nat) : Bool :=
  year % 4 == 0 && (year % 100 != 0 || year % 400 == 0)

def daysIn (year month : Nat) : Nat :=
  match month with
  | 2 => if isLeap year then 29 else 28
  | 4 | 6 | 9 | 11 => 30
  | _ => 31

def chars (d : Date) : Chars :=
  padded 4 d.year ++ '-' :: padded 2 d.month ++ '-' :: padded 2 d.day

end Date

/-- A fraction is written without the zeros at its end, and a whole second without a fraction. -/
def Time.chars (t : Time) : Chars :=
  let fraction := ((padded 9 t.nanosecond).reverse.dropWhile (· == '0')).reverse
  padded 2 t.hour ++ ':' :: padded 2 t.minute ++ ':' :: padded 2 t.second ++
    if fraction.isEmpty then [] else '.' :: fraction

def Offset.chars : Offset → Chars
  | universal => ['Z']
  | east minutes =>
    (if minutes < 0 then '-' else '+') :: padded 2 (minutes.natAbs / 60) ++
      ':' :: padded 2 (minutes.natAbs % 60)

namespace Moment

def chars : Moment → Chars
  | date d => d.chars
  | time t => t.chars
  | dateTime d t none => d.chars ++ 'T' :: t.chars
  | dateTime d t (some offset) => d.chars ++ 'T' :: t.chars ++ offset.chars

def text (m : Moment) : String :=
  String.ofList m.chars

end Moment

/-- A number of `width` digits between `low` and `high`, and what follows it. -/
def numberIn? (width low high : Nat) (cs : Chars) : Option (Nat × Chars) := do
  let digits := cs.take width
  let n ← Text.digits? digits
  if digits.length = width ∧ low ≤ n ∧ n ≤ high then some (n, cs.drop width) else none

def after? (c : Char) : Chars → Option Chars
  | [] => none
  | d :: cs => if d = c then some cs else none

def Date.read? (cs : Chars) : Option (Date × Chars) := do
  let (year, cs) ← numberIn? 4 0 9999 cs
  let (month, cs) ← numberIn? 2 1 12 (← after? '-' cs)
  let (day, cs) ← numberIn? 2 1 (Date.daysIn year month) (← after? '-' cs)
  return (⟨year, month, day⟩, cs)

/-- Billionths from the digits of a fraction. Digits past the ninth are dropped. -/
def nanoseconds (digits : Chars) : Nat :=
  let kept := digits.take 9
  Nat.ofDigitChars 10 kept 0 * Nat.pow 10 (9 - kept.length)

def Time.read? (cs : Chars) : Option (Time × Chars) := do
  let (hour, cs) ← numberIn? 2 0 23 cs
  let (minute, cs) ← numberIn? 2 0 59 (← after? ':' cs)
  let (second, cs) ← numberIn? 2 0 60 (← after? ':' cs)
  let fraction := match cs with
    | '.' :: digits => digits.takeWhile Char.isDigit
    | _ => []
  if fraction.isEmpty then return (⟨hour, minute, second, 0⟩, cs)
  else return (⟨hour, minute, second, nanoseconds fraction⟩, cs.drop (fraction.length + 1))

def Offset.read? (cs : Chars) : Option (Offset × Chars) :=
  match cs with
  | 'Z' :: cs | 'z' :: cs => some (.universal, cs)
  | sign :: cs => do
    let (hours, cs) ← numberIn? 2 0 23 cs
    let (minutes, cs) ← numberIn? 2 0 59 (← after? ':' cs)
    let distance : Int := (60 * hours + minutes : Nat)
    if sign = '+' then return (.east distance, cs)
    else if sign = '-' then return (.east (-distance), cs)
    else none
  | [] => none

namespace Moment

/-- A time of day after a date, with a `T` or a space between them. -/
def timeAfterDate? : Chars → Option (Time × Chars)
  | 'T' :: cs | 't' :: cs | ' ' :: cs => Time.read? cs
  | _ => none

/-- A moment, and what follows it. -/
def read? (cs : Chars) : Option (Moment × Chars) :=
  match Date.read? cs with
  | none => (Time.read? cs).map fun (t, cs) => (.time t, cs)
  | some (d, cs) =>
    match timeAfterDate? cs with
    | none => some (.date d, cs)
    | some (t, cs) =>
      match Offset.read? cs with
      | none => some (.dateTime d t none, cs)
      | some (offset, cs) => some (.dateTime d t (some offset), cs)

def ofText? (text : String) : Option Moment :=
  match read? text.toList with
  | some (m, []) => some m
  | _ => none

end Moment

end Tunebook.Toml
