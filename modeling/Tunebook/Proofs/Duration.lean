import Mathlib.Algebra.Order.Group.Nat
import Mathlib.Data.Nat.Basic
import Tunebook.Duration

namespace Tunebook

theorem commonDivisor_pos (a b : Nat) : 0 < commonDivisor a b :=
  Nat.le_max_left 1 _

theorem commonDivisor_dvd_left (a b : Nat) : commonDivisor a b ∣ a := by
  by_cases h : Nat.gcd a b = 0
  · rw [(Nat.gcd_eq_zero_iff.1 h).1]
    exact Nat.dvd_zero _
  · rw [commonDivisor, Nat.max_eq_right (Nat.pos_of_ne_zero h)]
    exact Nat.gcd_dvd_left a b

theorem commonDivisor_comm (a b : Nat) : commonDivisor a b = commonDivisor b a := by
  rw [commonDivisor, commonDivisor, Nat.gcd_comm]

theorem commonDivisor_dvd_right (a b : Nat) : commonDivisor a b ∣ b := by
  rw [commonDivisor_comm]
  exact commonDivisor_dvd_left b a

/-- A product of two words of 32 bits always fits one of 64. -/
theorem Word.toNat_mul_wide (a b : UInt32) :
    (a.toUInt64 * b.toUInt64).toNat = a.toNat * b.toNat := by
  have ha : a.toNat < UInt32.size := a.toNat_lt_size
  have hb : b.toNat < UInt32.size := b.toNat_lt_size
  rw [UInt64.toNat_mul, UInt32.toNat_toUInt64, UInt32.toNat_toUInt64]
  apply Nat.mod_eq_of_lt
  calc a.toNat * b.toNat < UInt32.size * UInt32.size := Nat.mul_lt_mul_of_lt_of_lt ha hb
    _ = 18446744073709551616 := by decide

namespace Duration

theorem den_pos (d : Duration) (h : d.den ≠ 0) : 0 < d.den.toNat :=
  Nat.pos_of_ne_zero fun h0 => h (UInt32.toNat_inj.1 h0)

theorem commonDivisor_toNat (d : Duration) :
    (UInt32.ofNat (commonDivisor d.num.toNat d.den.toNat)).toNat =
      commonDivisor d.num.toNat d.den.toNat := by
  apply UInt32.toNat_ofNat_of_lt'
  have hn : d.num.toNat < UInt32.size := d.num.toNat_lt_size
  have hd : d.den.toNat < UInt32.size := d.den.toNat_lt_size
  by_cases h : d.num.toNat = 0
  · by_cases h' : d.den.toNat = 0
    · rw [h, h']
      decide
    · exact (Nat.le_of_dvd (Nat.pos_of_ne_zero h') (commonDivisor_dvd_right _ _)).trans_lt hd
  · exact (Nat.le_of_dvd (Nat.pos_of_ne_zero h) (commonDivisor_dvd_left _ _)).trans_lt hn

theorem reduced_num (d : Duration) :
    d.reduced.num.toNat = d.num.toNat / commonDivisor d.num.toNat d.den.toNat := by
  simp only [reduced, UInt32.toNat_div, commonDivisor_toNat]

theorem reduced_den (d : Duration) :
    d.reduced.den.toNat = d.den.toNat / commonDivisor d.num.toNat d.den.toNat := by
  simp only [reduced, UInt32.toNat_div, commonDivisor_toNat]

theorem cross_toNat (a b : Duration) :
    (a.cross b).1.toNat = a.num.toNat * b.den.toNat ∧
      (a.cross b).2.toNat = b.num.toNat * a.den.toNat :=
  ⟨Word.toNat_mul_wide _ _, Word.toNat_mul_wide _ _⟩

theorem alike_iff {a b : Duration} :
    a.alike b = true ↔ a.num.toNat * b.den.toNat = b.num.toNat * a.den.toNat := by
  rw [alike, beq_iff_eq, ← UInt64.toNat_inj, (cross_toNat a b).1, (cross_toNat a b).2]

theorem alike_reduced (d : Duration) : d.alike d.reduced = true := by
  have hl := commonDivisor_dvd_left d.num.toNat d.den.toNat
  have hr := commonDivisor_dvd_right d.num.toNat d.den.toNat
  rw [alike_iff, reduced_num, reduced_den, ← Nat.mul_div_assoc _ hr,
    ← Nat.div_mul_right_comm hl]

theorem reduced_den_ne_zero (d : Duration) (h : d.den ≠ 0) : d.reduced.den ≠ 0 := by
  intro h0
  have hr := commonDivisor_dvd_right d.num.toNat d.den.toNat
  have hle := Nat.le_of_dvd (d.den_pos h) hr
  have hp := Nat.div_pos hle (commonDivisor_pos d.num.toNat d.den.toNat)
  rw [← reduced_den, h0] at hp
  exact absurd hp (by decide)

theorem ofFraction?_den_ne_zero (num den : Nat) (d : Duration) (hd : den ≠ 0)
    (h : ofFraction? num den = some d) : d.den ≠ 0 := by
  simp only [ofFraction?, Option.bind_eq_bind, Option.bind_eq_some_iff, Option.pure_def,
    Option.some.injEq] at h
  obtain ⟨n, -, w, hw, rfl⟩ := h
  intro h0
  have hv := Word.fit32_eq_some_iff.1 hw
  rw [show w = 0 from h0] at hv
  have hp := Nat.div_pos (Nat.le_of_dvd (Nat.pos_of_ne_zero hd) (commonDivisor_dvd_right num den))
    (commonDivisor_pos num den)
  rw [← hv] at hp
  exact absurd hp (by decide)

theorem mul?_den_ne_zero (a b d : Duration) (ha : a.den ≠ 0) (hb : b.den ≠ 0)
    (h : a.mul? b = some d) : d.den ≠ 0 :=
  ofFraction?_den_ne_zero _ _ d (Nat.mul_ne_zero (a.den_pos ha).ne' (b.den_pos hb).ne') h

theorem add?_den_ne_zero (a b d : Duration) (ha : a.den ≠ 0) (hb : b.den ≠ 0)
    (h : a.add? b = some d) : d.den ≠ 0 :=
  ofFraction?_den_ne_zero _ _ d (Nat.mul_ne_zero (a.den_pos ha).ne' (b.den_pos hb).ne') h

end Duration

end Tunebook
