import Tunebook.Proofs.Tune.LowestTerms

namespace Tunebook

/-- A word of 128 bits, whose sums and products wrap around. -/
abbrev Wide := BitVec 128

namespace Wide

def ofWord (w : UInt32) : Wide :=
  w.toBitVec.setWidth 128

/-- Euclid's algorithm. Two zeros have the divisor 1. -/
def divisor (a b : Wide) : Wide :=
  if b = 0#128 then if a = 0#128 then 1#128 else a else divisor b (a % b)
termination_by b.toNat
decreasing_by
  rw [BitVec.toNat_umod]
  exact Nat.mod_lt _ (Nat.pos_of_ne_zero fun h0 => ‹¬b = 0#128› (BitVec.eq_of_toNat_eq h0))

theorem divisor_toNat (a b : Wide) : (divisor a b).toNat = commonDivisor a.toNat b.toNat := by
  fun_induction divisor a b with
  | case1 => rfl
  | case2 a ha =>
    have hpos : 0 < a.toNat := Nat.pos_of_ne_zero fun h0 => ha (BitVec.eq_of_toNat_eq h0)
    rw [commonDivisor, BitVec.toNat_zero, Nat.gcd_zero_right, Nat.max_eq_right hpos]
  | case3 a b hb ih =>
    rw [ih, BitVec.toNat_umod, commonDivisor, commonDivisor, Nat.gcd_comm, ← Nat.gcd_rec,
      Nat.gcd_comm]

theorem ofWord_toNat (w : UInt32) : (ofWord w).toNat = w.toNat :=
  BitVec.toNat_setWidth_of_le (by decide)

theorem mul_toNat (a b : UInt32) : (ofWord a * ofWord b).toNat = a.toNat * b.toNat := by
  have hab : a.toNat * b.toNat < UInt32.size * UInt32.size :=
    Nat.mul_lt_mul'' a.toNat_lt_size b.toNat_lt_size
  rw [BitVec.toNat_mul, ofWord_toNat, ofWord_toNat]
  exact Nat.mod_eq_of_lt (hab.trans (by decide))

theorem add_toNat (a b c d : UInt32) :
    (ofWord a * ofWord b + ofWord c * ofWord d).toNat = a.toNat * b.toNat + c.toNat * d.toNat := by
  have hab : a.toNat * b.toNat < UInt32.size * UInt32.size :=
    Nat.mul_lt_mul'' a.toNat_lt_size b.toNat_lt_size
  have hcd : c.toNat * d.toNat < UInt32.size * UInt32.size :=
    Nat.mul_lt_mul'' c.toNat_lt_size d.toNat_lt_size
  rw [BitVec.toNat_add, mul_toNat, mul_toNat]
  exact Nat.mod_eq_of_lt ((Nat.add_lt_add hab hcd).trans (by decide))

end Wide

namespace Duration

open Wide

def narrowed? (num den : Wide) : Option Duration := do
  let g := divisor num den
  let n ← Word.fit32 (num / g).toNat
  let d ← Word.fit32 (den / g).toNat
  return ⟨n, d⟩

def wideAdd? (a b : Duration) : Option Duration :=
  narrowed? (ofWord a.num * ofWord b.den + ofWord b.num * ofWord a.den)
    (ofWord a.den * ofWord b.den)

def wideScale? (a : Duration) (byNum byDen : UInt32) : Option Duration :=
  narrowed? (ofWord a.num * ofWord byNum) (ofWord a.den * ofWord byDen)

theorem narrowed?_eq (num den : Wide) : narrowed? num den = ofFraction? num.toNat den.toNat := by
  rw [narrowed?, ofFraction?, BitVec.toNat_udiv, BitVec.toNat_udiv, divisor_toNat]

theorem wideAdd?_eq (a b : Duration) : a.wideAdd? b = a.add? b := by
  rw [wideAdd?, narrowed?_eq, add_toNat, mul_toNat, add?]

theorem wideScale?_eq (a : Duration) (byNum byDen : UInt32) :
    a.wideScale? byNum byDen = a.mul? ⟨byNum, byDen⟩ := by
  rw [wideScale?, narrowed?_eq, mul_toNat, mul_toNat, mul?]

/-- There is a result exactly if both parts of the number in lowest terms fit a word, and then it
holds these parts. -/
def Exact (result : Option Duration) (x : ℚ) : Prop :=
  ((∃ r, result = some r) ↔ x.num < UInt32.size ∧ x.den < UInt32.size) ∧
    ∀ r, result = some r → (r.num.toNat : ℤ) = x.num ∧ r.den.toNat = x.den

theorem exact_ofValue? {x : ℚ} (hx : 0 ≤ x) : Exact (ofValue? x) x := by
  have habs : (x.num.natAbs : ℤ) = x.num := Int.natAbs_of_nonneg (Rat.num_nonneg.2 hx)
  constructor
  · rw [← fits_iff_exists, Fits, ← habs, Nat.cast_lt]
    rfl
  · intro r hr
    obtain ⟨hnum, hden⟩ := ofValue?_eq_some_iff.1 hr
    rw [hnum, habs]
    exact ⟨rfl, hden⟩

theorem add?_exact {a b : Duration} (ha : a.den ≠ 0) (hb : b.den ≠ 0) :
    Exact (a.add? b) (a.value + b.value) := by
  rw [add?_eq_ofValue? ha hb]
  exact exact_ofValue? (add_nonneg a.value_nonneg b.value_nonneg)

theorem mul?_exact {a b : Duration} (ha : a.den ≠ 0) (hb : b.den ≠ 0) :
    Exact (a.mul? b) (a.value * b.value) := by
  rw [mul?_eq_ofValue? ha hb]
  exact exact_ofValue? (mul_nonneg a.value_nonneg b.value_nonneg)

theorem add?_comm (a b : Duration) : a.add? b = b.add? a := by
  rw [add?, add?, Nat.add_comm, Nat.mul_comm a.den.toNat]

/-- Two sums of three lengths are in lowest terms, and of the same number. -/
theorem add?_assoc {a b c r s : Duration} (ha : a.den ≠ 0) (hb : b.den ≠ 0) (hc : c.den ≠ 0)
    (hr : (a.add? b).bind (fun x => x.add? c) = some r)
    (hs : (b.add? c).bind (fun x => a.add? x) = some s) : r = s := by
  obtain ⟨x, hx, hr⟩ := Option.bind_eq_some_iff.1 hr
  obtain ⟨y, hy, hs⟩ := Option.bind_eq_some_iff.1 hs
  have hvx : x.value = a.value + b.value := add?_value ha hb hx
  have hvy : y.value = b.value + c.value := add?_value hb hc hy
  rw [add?_eq_ofValue? (add?_den_ne_zero a b x ha hb hx) hc, hvx] at hr
  rw [add?_eq_ofValue? ha (add?_den_ne_zero b c y hb hc hy), hvy, ← add_assoc, hr] at hs
  exact Option.some.inj hs

/-- The results are exact, no word of 128 bits wraps around on the way to them, and the order of
two or three summands makes no difference. -/
theorem add?_mul?_exact (a b c : Duration) (byNum byDen : UInt32) (ha : a.den ≠ 0)
    (hb : b.den ≠ 0) (hc : c.den ≠ 0) (hby : byDen ≠ 0) :
    (Exact (a.add? b) (a.value + b.value) ∧
      Exact (a.mul? ⟨byNum, byDen⟩) (a.value * (byNum.toNat / byDen.toNat)) ∧
      Exact (a.mul? b) (a.value * b.value)) ∧
    (a.wideAdd? b = a.add? b ∧ a.wideScale? byNum byDen = a.mul? ⟨byNum, byDen⟩ ∧
      a.wideScale? b.num b.den = a.mul? b) ∧
    (∀ u v w z : UInt32, (ofWord u * ofWord v).toNat = u.toNat * v.toNat ∧
      (ofWord u * ofWord v + ofWord w * ofWord z).toNat = u.toNat * v.toNat + w.toNat * z.toNat) ∧
    a.add? b = b.add? a ∧
    ∀ r s, (a.add? b).bind (fun x => x.add? c) = some r →
      (b.add? c).bind (fun x => a.add? x) = some s → r = s := by
  refine ⟨⟨add?_exact ha hb, mul?_exact ha hby, mul?_exact ha hb⟩,
    ⟨wideAdd?_eq a b, wideScale?_eq a byNum byDen, wideScale?_eq a b.num b.den⟩, ?_,
    add?_comm a b, ?_⟩
  · intro u v w z
    exact ⟨mul_toNat u v, add_toNat u v w z⟩
  · intro r s
    exact add?_assoc ha hb hc

/-- Just under one half, in the largest terms. -/
def nearHalf : Duration := ⟨2147483647, 4294967295⟩

theorem add?_mul?_exact_nearHalf :
    nearHalf.add? nearHalf = some ⟨4294967294, 4294967295⟩ ∧
      nearHalf.mul? ⟨4294967295, 2147483647⟩ = some ⟨1, 1⟩ ∧
      nearHalf.mul? nearHalf = none ∧
      ¬((nearHalf.value * nearHalf.value).num < UInt32.size ∧
        (nearHalf.value * nearHalf.value).den < UInt32.size) := by
  have hnone : nearHalf.mul? nearHalf = none := by decide +kernel
  obtain ⟨⟨-, -, hexact⟩, -⟩ := add?_mul?_exact nearHalf nearHalf ⟨1, 4294967295⟩ 4294967295
    2147483647 (by decide) (by decide) (by decide) (by decide)
  refine ⟨by decide +kernel, by decide +kernel, hnone, fun hfits => ?_⟩
  obtain ⟨r, hr⟩ := hexact.1.2 hfits
  rw [hnone] at hr
  cases hr

end Duration

end Tunebook
