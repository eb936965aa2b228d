namespace Tunebook.Midi

/-- The lowest `width` bytes of `n`, the highest of them first. -/
def bigEndian : Nat → Nat → List UInt8
  | 0, _ => []
  | width + 1, n => bigEndian width (n / 256) ++ [UInt8.ofNat (n % 256)]

/-- The groups of seven bits of `n`, each with the high bit set; none for 0. -/
def leading (n : Nat) : List UInt8 :=
  if n = 0 then [] else leading (n / 128) ++ [UInt8.ofNat (n % 128 + 128)]
termination_by n

def quantity (n : Nat) : List UInt8 :=
  leading (n / 128) ++ [UInt8.ofNat (n % 128)]

end Tunebook.Midi
