namespace Tunebook.Text

def decimal (n : Nat) : List Char :=
  Nat.toDigits 10 n

def hexDigit? (c : Char) : Option Nat :=
  if c.isDigit then some (c.toNat - '0'.toNat)
  else if 'a' ≤ c ∧ c ≤ 'f' then some (c.toNat - 'a'.toNat + 10)
  else if 'A' ≤ c ∧ c ≤ 'F' then some (c.toNat - 'A'.toNat + 10)
  else none

/-- The character of a code point in hexadecimal. -/
def codePoint? (digits : List Char) : Option Char := do
  let n ← digits.foldlM (fun n c => (hexDigit? c).map (16 * n + ·)) 0
  if n.isValidChar then some (Char.ofNat n) else none

/-- A non-empty run of digits and nothing else; leading zeros are allowed. -/
def digits? (cs : List Char) : Option Nat :=
  if !cs.isEmpty && cs.all Char.isDigit then some (Nat.ofDigitChars 10 cs 0) else none

/-- A natural number, which may carry a plus sign. -/
def numeral? : List Char → Option Nat
  | '+' :: cs => digits? cs
  | cs => digits? cs

/-- An integer, which may carry either sign. -/
def integer? : List Char → Option Int
  | '-' :: cs => (digits? cs).map fun n => -(n : Int)
  | cs => (numeral? cs).map fun n => (n : Int)

end Tunebook.Text
