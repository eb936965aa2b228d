import Tunebook.Text.Blank
import Tunebook.Toml.Moment

namespace Tunebook.Toml

/-- Digits with single underscores between them. -/
def isDigits (digit : Char → Bool) (cs : Chars) : Bool :=
  (Text.splitAll '_' cs).all fun group => !group.isEmpty && group.all digit

/-- Digits that do not start with a zero, unless that is all. -/
def isWhole (cs : Chars) : Bool :=
  isDigits Char.isDigit cs && (cs.head? != some '0' || cs.length == 1)

def unsigned : Chars → Chars
  | '+' :: cs | '-' :: cs => cs
  | cs => cs

def radixValue (base : Nat) (cs : Chars) : Nat :=
  (cs.filterMap Text.hexDigit?).foldl (fun n d => base * n + d) 0

/-- A whole number: decimal with a sign, or in one of the other bases without. -/
def integer? (cs : Chars) : Option Int :=
  match cs with
  | '0' :: 'x' :: digits =>
    if isDigits (fun c => (Text.hexDigit? c).isSome) digits then some (radixValue 16 digits) else none
  | '0' :: 'o' :: digits =>
    if isDigits (fun c => '0' ≤ c && c ≤ '7') digits then some (radixValue 8 digits) else none
  | '0' :: 'b' :: digits =>
    if isDigits (fun c => c == '0' || c == '1') digits then some (radixValue 2 digits) else none
  | cs =>
    if isWhole (unsigned cs) then Text.integer? (cs.filter (· != '_')) else none

def isInteger64 (z : Int) : Bool :=
  -(Int.pow 2 63) ≤ z && z < Int.pow 2 63

/-- A decimal number without its sign: the digits of the whole part, those of the fraction and the
exponent. -/
structure Decimal where
  whole : Chars
  fraction : Chars
  exponent : Int
deriving DecidableEq

namespace Decimal

def exponent? (cs : Chars) : Option Int :=
  if isDigits Char.isDigit (unsigned cs) then Text.integer? (cs.filter (· != '_')) else none

def isExponentLetter (c : Char) : Bool :=
  c == 'e' || c == 'E'

/-- A number with a fraction, an exponent or both. -/
def ofChars? (cs : Chars) : Option Decimal := do
  let mantissa := cs.takeWhile fun c => !isExponentLetter c
  let exponent ← match cs.dropWhile fun c => !isExponentLetter c with
    | [] => some none
    | _ :: digits => (exponent? digits).map some
  match Text.splitOnce '.' mantissa, exponent with
  | none, none => none
  | none, some e => if isWhole mantissa then some ⟨mantissa, [], e⟩ else none
  | some (whole, fraction), e =>
    if isWhole whole && isDigits Char.isDigit fraction then some ⟨whole, fraction, e.getD 0⟩
    else none

/-- The least number that is too large for double precision: the largest one that fits, and half of
its last place. -/
def bound : Nat :=
  Nat.pow 2 1024 - Nat.pow 2 970

/-- The number is below `bound`. Its digits are counted first, so that no power is taken that
could not matter. -/
def isFinite (d : Decimal) : Bool :=
  let digits := (d.whole ++ d.fraction).filter (· != '_')
  let shift := d.exponent - (d.fraction.filter (· != '_')).length
  let n := Nat.ofDigitChars 10 digits 0
  let size := (Text.decimal n).length + shift
  n == 0 || size < 309 ||
    (size == 309 && n * Nat.pow 10 shift.toNat < bound * Nat.pow 10 (-shift).toNat)

end Decimal

/-- A number with a fraction or an exponent, or one of the special values. Numbers that are too
large are refused, but those that are too far below zero are not. -/
def isFloat (cs : Chars) : Bool :=
  let digits := unsigned cs
  digits == ['i', 'n', 'f'] || digits == ['n', 'a', 'n'] ||
    match Decimal.ofChars? digits with
    | none => false
    | some d => d.isFinite || cs.head? == some '-'

end Tunebook.Toml
