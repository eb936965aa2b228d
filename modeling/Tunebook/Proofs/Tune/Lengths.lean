import Mathlib.Algebra.Order.Field.Rat
import Mathlib.Data.Nat.Cast.Field
import Mathlib.Tactic.Positivity
import Mathlib.Tactic.Ring
import Tunebook.Proofs.Duration
import Tunebook.Proofs.Tune.Notation

namespace Tunebook

namespace Duration

def value (d : Duration) : ℚ :=
  d.num.toNat / d.den.toNat

theorem value_nonneg (d : Duration) : 0 ≤ d.value := by
  rw [value]
  positivity

@[simp] theorem value_zero : zero.value = 0 := by
  simp [value, zero]

@[simp] theorem value_unit : unit.value = 1 := by
  simp [value, unit]

theorem den_cast_ne_zero {d : Duration} (h : d.den ≠ 0) : (d.den.toNat : ℚ) ≠ 0 :=
  Nat.cast_ne_zero.2 (d.den_pos h).ne'

theorem alike_iff_value {a b : Duration} (ha : a.den ≠ 0) (hb : b.den ≠ 0) :
    a.alike b = true ↔ a.value = b.value := by
  rw [alike_iff, value, value, div_eq_div_iff (den_cast_ne_zero ha) (den_cast_ne_zero hb)]
  norm_cast

theorem value_reduced {d : Duration} (h : d.den ≠ 0) : d.reduced.value = d.value :=
  ((alike_iff_value h (d.reduced_den_ne_zero h)).1 d.alike_reduced).symm

theorem ofFraction?_value {num den : Nat} {d : Duration} (h : ofFraction? num den = some d) :
    d.value = num / den := by
  simp only [ofFraction?, Option.bind_eq_bind, Option.bind_eq_some_iff, Option.pure_def,
    Option.some.injEq] at h
  obtain ⟨n, hn, w, hw, rfl⟩ := h
  have hg : (commonDivisor num den : ℚ) ≠ 0 :=
    Nat.cast_ne_zero.2 (commonDivisor_pos num den).ne'
  rw [value, Word.fit32_eq_some_iff.1 hn, Word.fit32_eq_some_iff.1 hw,
    Nat.cast_div (commonDivisor_dvd_left num den) hg,
    Nat.cast_div (commonDivisor_dvd_right num den) hg, div_div_div_cancel_right₀ hg]

theorem mul?_value {a b d : Duration} (h : a.mul? b = some d) : d.value = a.value * b.value := by
  have hd := ofFraction?_value h
  rw [Nat.cast_mul, Nat.cast_mul] at hd
  rw [hd, value, value, div_mul_div_comm]

theorem add?_value {a b d : Duration} (ha : a.den ≠ 0) (hb : b.den ≠ 0) (h : a.add? b = some d) :
    d.value = a.value + b.value := by
  have hd := ofFraction?_value h
  have ha' := den_cast_ne_zero ha
  have hb' := den_cast_ne_zero hb
  rw [hd, value, value, div_add_div _ _ ha' hb']
  push_cast
  ring

end Duration

namespace Element

mutual

def durations : Element → List Duration
  | note n => [n.duration]
  | rest d => [d]
  | accidental .. => []
  | chord notes => notes.map Note.duration
  | tuplet _ elements _ => durationsAll elements

def durationsAll : List Element → List Duration
  | [] => []
  | e :: es => durations e ++ durationsAll es

end

end Element

def Tune.durations (t : Tune) : List Duration :=
  t.defaultLength :: t.meter ::
    t.voices.flatMap fun v => v.bars.flatMap Element.durationsAll

theorem Tune.defaultLength_mem_durations (t : Tune) : t.defaultLength ∈ t.durations :=
  List.mem_cons_self

theorem Tune.meter_mem_durations (t : Tune) : t.meter ∈ t.durations :=
  List.mem_cons_of_mem _ List.mem_cons_self

end Tunebook
