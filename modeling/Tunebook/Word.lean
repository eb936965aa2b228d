namespace Tunebook.Word

def fit8 (n : Nat) : Option UInt8 :=
  if h : n < UInt8.size then some (UInt8.ofNatLT n h) else none

def fit32 (n : Nat) : Option UInt32 :=
  if h : n < UInt32.size then some (UInt32.ofNatLT n h) else none

def fit64 (n : Nat) : Option UInt64 :=
  if h : n < UInt64.size then some (UInt64.ofNatLT n h) else none

def fitSigned8 (z : Int) : Option Int8 :=
  if -128 ≤ z ∧ z ≤ 127 then some (Int8.ofInt z) else none

theorem fit8_eq_some_iff {n : Nat} {w : UInt8} : fit8 n = some w ↔ w.toNat = n := by
  unfold fit8
  split
  · rename_i h
    constructor
    · rintro ⟨⟩
      exact UInt8.toNat_ofNatLT
    · rintro rfl
      simp
  · rename_i h
    constructor
    · intro hw
      simp at hw
    · rintro rfl
      exact absurd w.toNat_lt_size h

theorem fit32_eq_some_iff {n : Nat} {w : UInt32} : fit32 n = some w ↔ w.toNat = n := by
  unfold fit32
  split
  · rename_i h
    constructor
    · rintro ⟨⟩
      exact UInt32.toNat_ofNatLT
    · rintro rfl
      simp
  · rename_i h
    constructor
    · intro hw
      simp at hw
    · rintro rfl
      exact absurd w.toNat_lt_size h

theorem fit32_eq_none_iff {n : Nat} : fit32 n = none ↔ UInt32.size ≤ n := by
  unfold fit32
  split <;> simp <;> omega

theorem fit32_toNat (w : UInt32) : fit32 w.toNat = some w :=
  fit32_eq_some_iff.2 rfl

end Tunebook.Word
