import Mathlib.Data.Rat.Lemmas
import Tunebook.Proofs.Tune.Lengths

namespace Tunebook

theorem commonDivisor_eq_gcd (a : Nat) {b : Nat} (h : b ≠ 0) :
    commonDivisor a b = Nat.gcd a b :=
  Nat.max_eq_right (Nat.gcd_pos_of_pos_right a (Nat.pos_of_ne_zero h))

namespace Duration

/-- The number in lowest terms, when both parts fit. -/
def ofValue? (x : ℚ) : Option Duration := do
  let num ← Word.fit32 x.num.natAbs
  let den ← Word.fit32 x.den
  return ⟨num, den⟩

def Fits (x : ℚ) : Prop :=
  x.num.natAbs < UInt32.size ∧ x.den < UInt32.size

theorem ofValue?_eq_some_iff {x : ℚ} {d : Duration} :
    ofValue? x = some d ↔ d.num.toNat = x.num.natAbs ∧ d.den.toNat = x.den := by
  simp only [ofValue?, Option.bind_eq_bind, Option.bind_eq_some_iff, Option.pure_def,
    Option.some.injEq, Word.fit32_eq_some_iff]
  constructor
  · rintro ⟨num, hnum, den, hden, rfl⟩
    exact ⟨hnum, hden⟩
  · intro h
    exact ⟨d.num, h.1, d.den, h.2, rfl⟩

theorem fits_iff_exists {x : ℚ} : Fits x ↔ ∃ d, ofValue? x = some d := by
  constructor
  · intro h
    exact ⟨⟨UInt32.ofNatLT _ h.1, UInt32.ofNatLT _ h.2⟩,
      ofValue?_eq_some_iff.2 ⟨UInt32.toNat_ofNatLT, UInt32.toNat_ofNatLT⟩⟩
  · rintro ⟨d, hd⟩
    obtain ⟨hnum, hden⟩ := ofValue?_eq_some_iff.1 hd
    rw [Fits, ← hnum, ← hden]
    exact ⟨d.num.toNat_lt_size, d.den.toNat_lt_size⟩

theorem ofValue?_den_ne_zero {x : ℚ} {d : Duration} (h : ofValue? x = some d) : d.den ≠ 0 := by
  have hden := (ofValue?_eq_some_iff.1 h).2
  intro h0
  rw [h0] at hden
  exact x.den_ne_zero hden.symm

theorem ofValue?_value {x : ℚ} {d : Duration} (hx : 0 ≤ x) (h : ofValue? x = some d) :
    d.value = x := by
  obtain ⟨hnum, hden⟩ := ofValue?_eq_some_iff.1 h
  have habs : ((x.num.natAbs : ℤ) : ℚ) = x.num := by
    rw [Int.natAbs_of_nonneg (Rat.num_nonneg.2 hx)]
  rw [value, hnum, hden, ← Int.cast_natCast x.num.natAbs, habs]
  exact x.num_div_den

/-- Dividing by the common divisor gives lowest terms. -/
theorem ofFraction?_eq_ofValue? (num : Nat) {den : Nat} (h : den ≠ 0) :
    ofFraction? num den = ofValue? (num / den) := by
  have hg := commonDivisor_pos num den
  have hnum := commonDivisor_dvd_left num den
  have hden := commonDivisor_dvd_right num den
  have hpos : 0 < den / commonDivisor num den :=
    Nat.div_pos (Nat.le_of_dvd (Nat.pos_of_ne_zero h) hden) hg
  have hcoprime : Nat.Coprime ((num / commonDivisor num den : ℕ) : ℤ).natAbs
      ((den / commonDivisor num den : ℕ) : ℤ).natAbs := by
    rw [Int.natAbs_natCast, Int.natAbs_natCast, commonDivisor_eq_gcd num h]
    exact Nat.coprime_div_gcd_div_gcd (Nat.gcd_pos_of_pos_right num (Nat.pos_of_ne_zero h))
  have hvalue : (num : ℚ) / den = ((num / commonDivisor num den : ℕ) : ℤ) /
      ((den / commonDivisor num den : ℕ) : ℤ) := by
    have hg' : (commonDivisor num den : ℚ) ≠ 0 := Nat.cast_ne_zero.2 hg.ne'
    rw [Int.cast_natCast, Int.cast_natCast, Nat.cast_div hnum hg', Nat.cast_div hden hg',
      div_div_div_cancel_right₀ hg']
  have hparts : ((num : ℚ) / den).num.natAbs = num / commonDivisor num den ∧
      ((num : ℚ) / den).den = den / commonDivisor num den := by
    have hpos' : (0 : ℤ) < (den / commonDivisor num den : ℕ) := Int.natCast_pos.2 hpos
    rw [hvalue, Rat.num_div_eq_of_coprime hpos' hcoprime]
    refine ⟨Int.natAbs_natCast _, ?_⟩
    exact_mod_cast Rat.den_div_eq_of_coprime hpos' hcoprime
  rw [ofFraction?, ofValue?, hparts.1, hparts.2]

variable {a b : Duration}

theorem mul?_eq_ofValue? (ha : a.den ≠ 0) (hb : b.den ≠ 0) :
    a.mul? b = ofValue? (a.value * b.value) := by
  have hden : a.den.toNat * b.den.toNat ≠ 0 :=
    Nat.mul_ne_zero (a.den_pos ha).ne' (b.den_pos hb).ne'
  rw [mul?, ofFraction?_eq_ofValue? _ hden, Nat.cast_mul, Nat.cast_mul, value, value,
    div_mul_div_comm]

theorem add?_eq_ofValue? (ha : a.den ≠ 0) (hb : b.den ≠ 0) :
    a.add? b = ofValue? (a.value + b.value) := by
  have hden : a.den.toNat * b.den.toNat ≠ 0 :=
    Nat.mul_ne_zero (a.den_pos ha).ne' (b.den_pos hb).ne'
  have hsum : a.value + b.value =
      ((a.num.toNat * b.den.toNat + b.num.toNat * a.den.toNat : ℕ) : ℚ) /
        (a.den.toNat * b.den.toNat : ℕ) := by
    rw [value, value, div_add_div _ _ (den_cast_ne_zero ha) (den_cast_ne_zero hb)]
    push_cast
    ring
  rw [add?, ofFraction?_eq_ofValue? _ hden, hsum]

/-- A length in lowest terms is all there is to its number. -/
theorem ofValue?_of_value {d : Duration} (h : d.den ≠ 0) : ofValue? d.value = some d.reduced := by
  rw [value, ← ofFraction?_eq_ofValue? _ (d.den_pos h).ne', ofFraction?, ← reduced_num,
    ← reduced_den, Word.fit32_toNat, Word.fit32_toNat]
  rfl

theorem reduced_eq_of_value (ha : a.den ≠ 0) (hb : b.den ≠ 0) (h : a.value = b.value) :
    a.reduced = b.reduced := by
  apply Option.some.inj
  rw [← ofValue?_of_value ha, h, ofValue?_of_value hb]

theorem reduced_of_ofValue? {x : ℚ} {d : Duration} (hx : 0 ≤ x) (h : ofValue? x = some d) :
    d.reduced = d := by
  apply Option.some.inj
  rw [← ofValue?_of_value (ofValue?_den_ne_zero h), ofValue?_value hx h, h]

end Duration

end Tunebook
