import Mathlib.Data.List.TFAE
import Mathlib.Tactic.TFAE
import Tunebook.Proofs.Text
import Tunebook.Proofs.Tune.LowestTerms

namespace Tunebook

theorem Text.decimal_injective : Function.Injective decimal := by
  intro n m h
  have hread := digits?_decimal n
  rw [h, digits?_decimal m] at hread
  exact (Option.some.inj hread).symm

namespace Duration

theorem exists_eq_mul_reduced (d : Duration) :
    ∃ g, d.num.toNat = g * d.reduced.num.toNat ∧ d.den.toNat = g * d.reduced.den.toNat := by
  refine ⟨commonDivisor d.num.toNat d.den.toNat, ?_, ?_⟩
  · rw [reduced_num, Nat.mul_div_cancel' (commonDivisor_dvd_left _ _)]
  · rw [reduced_den, Nat.mul_div_cancel' (commonDivisor_dvd_right _ _)]

variable {a b : Duration}

theorem eq_of_parts (hnum : a.num = b.num) (hden : a.den = b.den) : a = b := by
  cases a
  cases b
  rw [mk.injEq]
  exact ⟨hnum, hden⟩

theorem alike_of_reduced_eq (h : a.reduced = b.reduced) : a.alike b = true := by
  obtain ⟨g, hanum, haden⟩ := a.exists_eq_mul_reduced
  obtain ⟨k, hbnum, hbden⟩ := b.exists_eq_mul_reduced
  rw [alike_iff, hanum, haden, hbnum, hbden, h]
  ring

theorem reduced_eq_of_alike (ha : a.den ≠ 0) (hb : b.den ≠ 0) (h : a.alike b = true) :
    a.reduced = b.reduced :=
  reduced_eq_of_value ha hb ((alike_iff_value ha hb).1 h)

-- over zero they are not: `0/0` compares as equal with everything
example : alike ⟨0, 0⟩ ⟨1, 2⟩ = true ∧ reduced ⟨0, 0⟩ ≠ reduced ⟨1, 2⟩ := by decide

theorem reduced_reduced {d : Duration} (h : d.den ≠ 0) : d.reduced.reduced = d.reduced :=
  reduced_eq_of_value (d.reduced_den_ne_zero h) h (value_reduced h)

theorem alike_equivalence :
    Equivalence fun a b : {d : Duration // d.den ≠ 0} => a.1.alike b.1 = true := by
  -- being one number is an equivalence, and `alike` decides it
  have hvalue (a b : {d : Duration // d.den ≠ 0}) := alike_iff_value a.2 b.2
  refine ⟨fun a => ?_, fun {a b} hab => ?_, fun {a b c} hab hbc => ?_⟩
  · exact (hvalue a a).2 rfl
  · exact (hvalue b a).2 ((hvalue a b).1 hab).symm
  · exact (hvalue a c).2 (((hvalue a b).1 hab).trans ((hvalue b c).1 hbc))

theorem text_eq_of_reduced_eq (h : a.reduced = b.reduced) : a.text = b.text := by
  rw [text, text, h]

/-- Both parts can be read off the text again, since no number holds a slash. -/
theorem splitOnce_text (d : Duration) :
    Text.splitOnce '/' d.text.toList =
      some (Text.decimal d.reduced.num.toNat, Text.decimal d.reduced.den.toNat) := by
  have htext : d.text.toList =
      Text.decimal d.reduced.num.toNat ++ '/' :: Text.decimal d.reduced.den.toNat := by
    rw [text, String.toList_append, String.toList_append, List.append_assoc]
    change (String.ofList (Text.decimal _)).toList ++
      '/' :: (String.ofList (Text.decimal _)).toList = _
    rw [String.toList_ofList, String.toList_ofList]
  rw [htext]
  exact Text.splitOnce_append '/' _ _ (Text.not_mem_decimal _ '/' rfl)

theorem reduced_eq_of_text_eq (h : a.text = b.text) : a.reduced = b.reduced := by
  have hparts := a.splitOnce_text
  rw [h, b.splitOnce_text, Option.some.injEq, Prod.mk.injEq] at hparts
  have hnum := UInt32.toNat_inj.1 (Text.decimal_injective hparts.1)
  have hden := UInt32.toNat_inj.1 (Text.decimal_injective hparts.2)
  exact eq_of_parts hnum.symm hden.symm

/-- What a hash is fed shows in one that keeps every word. -/
theorem hashInto_kept (d : Duration) :
    d.hashInto (fun words word => words ++ [word]) [] = [d.reduced.num, d.reduced.den] := rfl

theorem hashInto_eq_of_reduced_eq (h : a.reduced = b.reduced) {σ : Type} (write : σ → UInt32 → σ)
    (state : σ) : a.hashInto write state = b.hashInto write state := by
  rw [hashInto, hashInto, h]

theorem reduced_eq_of_hashInto_eq
    (h : ∀ (σ : Type) (write : σ → UInt32 → σ) (state : σ),
      a.hashInto write state = b.hashInto write state) : a.reduced = b.reduced := by
  have hwords := h (List UInt32) (fun words word => words ++ [word]) []
  rw [hashInto_kept, hashInto_kept, List.cons.injEq, List.cons.injEq] at hwords
  exact eq_of_parts hwords.1 hwords.2.1

/-- Lengths that compare as equal, that are one fraction, that have the same lowest terms, that print
alike and that no hash tells apart are the same ones. A hash is fed the lowest terms and nothing
else. -/
theorem alike_reduced_text_hash (ha : a.den ≠ 0) (hb : b.den ≠ 0) :
    [a.alike b = true, a.num.toNat * b.den.toNat = b.num.toNat * a.den.toNat,
      a.reduced = b.reduced, a.text = b.text,
      ∀ (σ : Type) (write : σ → UInt32 → σ) (state : σ),
        a.hashInto write state = b.hashInto write state].TFAE ∧
    a.hashInto (fun words word => words ++ [word]) [] = [a.reduced.num, a.reduced.den] ∧
    (Equivalence fun a b : {d : Duration // d.den ≠ 0} => a.1.alike b.1 = true) ∧
    a.reduced.reduced = a.reduced ∧
    (a.cross b).1.toNat = a.num.toNat * b.den.toNat ∧
    (a.cross b).2.toNat = b.num.toNat * a.den.toNat := by
  refine ⟨?_, a.hashInto_kept, alike_equivalence, reduced_reduced ha, cross_toNat a b⟩
  tfae_have 1 ↔ 2 := alike_iff
  tfae_have 1 → 3 := reduced_eq_of_alike ha hb
  tfae_have 3 → 1 := alike_of_reduced_eq
  tfae_have 3 → 4 := text_eq_of_reduced_eq
  tfae_have 4 → 3 := reduced_eq_of_text_eq
  tfae_have 3 → 5 := fun h _ => hashInto_eq_of_reduced_eq h
  tfae_have 5 → 3 := reduced_eq_of_hashInto_eq
  tfae_finish

/-- The largest numerator, over a denominator with which it has a divisor in common. -/
theorem alike_reduced_text_hash_wide :
    let a : Duration := ⟨4294967295, 4294967290⟩
    let b : Duration := ⟨858993459, 858993458⟩
    (a.den ≠ 0 ∧ b.den ≠ 0) ∧ a.alike b = true ∧ a.text = b.text ∧
      (a.cross b).1.toNat = 4294967295 * 858993458 := by
  intro a b
  have ha : a.den ≠ 0 := by decide
  have hb : b.den ≠ 0 := by decide
  obtain ⟨hsame, -, -, -, hcross, -⟩ := alike_reduced_text_hash ha hb
  have halike : a.alike b = true := by decide
  exact ⟨⟨ha, hb⟩, halike, (hsame.out 0 3).1 halike, hcross⟩

end Duration

end Tunebook
