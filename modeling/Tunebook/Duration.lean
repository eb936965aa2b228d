import Tunebook.Word

namespace Tunebook

/-- The greatest common divisor, taken as 1 for two zeros so that dividing by it is harmless. -/
def commonDivisor (a b : Nat) : Nat :=
  max 1 (Nat.gcd a b)

def lcm? (a b : UInt32) : Option UInt32 :=
  Word.fit32 (a.toNat / commonDivisor a.toNat b.toNat * b.toNat)

structure Duration where
  num : UInt32
  den : UInt32
deriving DecidableEq

namespace Duration

def unit : Duration := ⟨1, 1⟩

def zero : Duration := ⟨0, 1⟩

def isZero (d : Duration) : Bool :=
  d.num == 0

/-- The fraction `num / den` in lowest terms, when both parts fit. -/
def ofFraction? (num den : Nat) : Option Duration := do
  let g := commonDivisor num den
  let n ← Word.fit32 (num / g)
  let d ← Word.fit32 (den / g)
  return ⟨n, d⟩

def reduced (d : Duration) : Duration :=
  let g := UInt32.ofNat (commonDivisor d.num.toNat d.den.toNat)
  ⟨d.num / g, d.den / g⟩

def add? (a b : Duration) : Option Duration :=
  ofFraction? (a.num.toNat * b.den.toNat + b.num.toNat * a.den.toNat) (a.den.toNat * b.den.toNat)

def mul? (a b : Duration) : Option Duration :=
  ofFraction? (a.num.toNat * b.num.toNat) (a.den.toNat * b.den.toNat)

/-- Each numerator times the other denominator, in words of 64 bits. -/
def cross (a b : Duration) : UInt64 × UInt64 :=
  (a.num.toUInt64 * b.den.toUInt64, b.num.toUInt64 * a.den.toUInt64)

/-- Two fractions of one value, whatever their terms. -/
def alike (a b : Duration) : Bool :=
  (a.cross b).1 == (a.cross b).2

/-- Feeds the value to a hash that takes one word after another: the two parts in lowest terms. -/
def hashInto {σ : Type} (write : σ → UInt32 → σ) (state : σ) (d : Duration) : σ :=
  write (write state d.reduced.num) d.reduced.den

/-- The length in whole ticks, rounded down, when a unit note takes `ticks` of them. A fraction
over zero takes no time. -/
def ticks? (d : Duration) (ticks : UInt64) : Option UInt64 :=
  if d.den = 0 then some 0 else Word.fit64 (ticks.toNat * d.num.toNat / d.den.toNat)

def ticks32? (d : Duration) (ticks : UInt32) : Option UInt32 := do
  let t ← d.ticks? ticks.toUInt64
  Word.fit32 t.toNat

/-- The value in lowest terms, as diagnostics cite it. -/
def text (d : Duration) : String :=
  toString d.reduced.num ++ "/" ++ toString d.reduced.den

def written (d : Duration) : String :=
  toString d.num ++ "/" ++ toString d.den

end Duration

end Tunebook
