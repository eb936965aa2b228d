import Mathlib.Tactic.MkIffOfInductiveProp
import Tunebook.Proofs.Lists
import Tunebook.Proofs.Playback.Measures
import Tunebook.Proofs.Tune.LowestTerms

namespace Tunebook

namespace Bar

variable (unitLength : Duration)

@[simp] theorem wholeNotes_nil : wholeNotes unitLength [] = 0 := rfl

theorem wholeNotes_cons (e : Element) (es : List Element) :
    wholeNotes unitLength (e :: es) = wholeNotes unitLength [e] + wholeNotes unitLength es := by
  rw [wholeNotes, wholeNotes, wholeNotes_nil, add_zero]

theorem wholeNotes_nonneg (es : List Element) : 0 ≤ wholeNotes unitLength es := by
  induction es with
  | nil => exact le_rfl
  | cons e es ih =>
    have hlength : 0 ≤ e.duration?.elim 0 Duration.value := by
      cases e.duration? with
      | none => exact le_rfl
      | some d => exact d.value_nonneg
    have hfirst := mul_nonneg hlength unitLength.value_nonneg
    exact add_nonneg hfirst ih

/-- The element can be added to those before it: it has a length, and neither that length in whole
notes nor the new total is too much for 32-bit words. -/
@[mk_iff]
structure Addable (before : List Element) (e : Element) : Prop where
  timed : e.duration? ≠ none
  length : Duration.Fits (wholeNotes unitLength [e])
  total : Duration.Fits (wholeNotes unitLength (before ++ [e]))

variable {unitLength} {b : Bar}

theorem fits_wholeNotes (h : ∀ before e after, b = before ++ e :: after →
    Addable unitLength before e) : Duration.Fits (wholeNotes unitLength b) := by
  rcases List.eq_nil_or_concat b with rfl | ⟨before, e, rfl⟩
  · rw [wholeNotes_nil]
    exact ⟨by decide, by decide⟩
  · rw [List.concat_eq_append] at h ⊢
    exact (h before e [] rfl).total

end Bar

namespace Feedback

variable {unitLength total total' : Duration}

theorem extend?_eq_some_iff {e : Element} (hunit : unitLength.den ≠ 0)
    (hden : ∀ d ∈ e.durations, d.den ≠ 0) (htotal : total.den ≠ 0) :
    extend? unitLength total e = some total' ↔
      e.duration? ≠ none ∧ Duration.Fits (Bar.wholeNotes unitLength [e]) ∧
        Duration.ofValue? (total.value + Bar.wholeNotes unitLength [e]) = some total' := by
  cases hd : e.duration? with
  | none => simp [extend?, hd]
  | some d =>
    have hd0 := Element.duration?_den_ne_zero hden hd
    have hvalue : Bar.wholeNotes unitLength [e] = d.value * unitLength.value := by
      rw [Bar.wholeNotes, Bar.wholeNotes_nil, add_zero, hd, Option.elim_some]
    have hnonneg : 0 ≤ d.value * unitLength.value :=
      mul_nonneg d.value_nonneg unitLength.value_nonneg
    have hmul := Duration.mul?_eq_ofValue? hd0 hunit
    have hadd {x : Duration} (hx : Duration.ofValue? (d.value * unitLength.value) = some x) :
        total.add? x = Duration.ofValue? (total.value + d.value * unitLength.value) := by
      rw [Duration.add?_eq_ofValue? htotal (Duration.ofValue?_den_ne_zero hx),
        Duration.ofValue?_value hnonneg hx]
    simp only [extend?, hd, Option.bind_eq_bind, Option.bind_some, hmul, hvalue,
      Option.bind_eq_some_iff, Duration.fits_iff_exists]
    constructor
    · rintro ⟨x, hx, hnext⟩
      rw [hadd hx] at hnext
      exact ⟨Option.some_ne_none d, ⟨x, hx⟩, hnext⟩
    · rintro ⟨-, ⟨x, hx⟩, hnext⟩
      rw [← hadd hx] at hnext
      exact ⟨x, hx, hnext⟩

theorem foldlM_extend?_eq_some_iff {es : List Element} (hunit : unitLength.den ≠ 0)
    (hden : ∀ d ∈ Element.durationsAll es, d.den ≠ 0) (htotal : total.den ≠ 0)
    (hreduced : total.reduced = total) :
    es.foldlM (extend? unitLength) total = some total' ↔
      (∀ before e after, es = before ++ e :: after →
        e.duration? ≠ none ∧ Duration.Fits (Bar.wholeNotes unitLength [e]) ∧
          Duration.Fits (total.value + Bar.wholeNotes unitLength (before ++ [e]))) ∧
        Duration.ofValue? (total.value + Bar.wholeNotes unitLength es) = some total' := by
  induction es generalizing total with
  | nil =>
    rw [Bar.wholeNotes_nil, add_zero, Duration.ofValue?_of_value htotal, hreduced]
    simp
  | cons e es ih =>
    rw [Element.durationsAll, List.forall_mem_append] at hden
    have hshift (fs : List Element) : total.value + Bar.wholeNotes unitLength (e :: fs) =
        total.value + Bar.wholeNotes unitLength [e] + Bar.wholeNotes unitLength fs := by
      rw [Bar.wholeNotes_cons, add_assoc]
    have hshift' (before : List Element) (f : Element) := hshift (before ++ [f])
    have hsum : 0 ≤ total.value + Bar.wholeNotes unitLength [e] :=
      add_nonneg total.value_nonneg (Bar.wholeNotes_nonneg unitLength [e])
    -- the total after `e` is in lowest terms again
    have hrest {next : Duration}
        (hnext : Duration.ofValue? (total.value + Bar.wholeNotes unitLength [e]) = some next) :=
      @ih next hden.2 (Duration.ofValue?_den_ne_zero hnext) (Duration.reduced_of_ofValue? hsum hnext)
    rw [forall_split_cons, List.foldlM_cons, Option.bind_eq_bind, Option.bind_eq_some_iff,
      List.nil_append, hshift es]
    simp only [extend?_eq_some_iff hunit hden.1 htotal, List.cons_append, hshift']
    constructor
    · rintro ⟨next, ⟨htimed, hlength, hnext⟩, hothers⟩
      rw [hrest hnext, Duration.ofValue?_value hsum hnext] at hothers
      have hfits := Duration.fits_iff_exists.2 ⟨next, hnext⟩
      exact ⟨⟨⟨htimed, hlength, hfits⟩, hothers.1⟩, hothers.2⟩
    · rintro ⟨⟨⟨htimed, hlength, hfits⟩, hothers⟩, hlast⟩
      obtain ⟨next, hnext⟩ := Duration.fits_iff_exists.1 hfits
      refine ⟨next, ⟨htimed, hlength, hnext⟩, ?_⟩
      rw [hrest hnext, Duration.ofValue?_value hsum hnext]
      exact ⟨hothers, hlast⟩

variable {b : Bar}

/-- The total is the exact length of the bar in lowest terms. -/
theorem barLength?_eq_some_iff (hunit : unitLength.den ≠ 0)
    (hden : ∀ d ∈ Element.durationsAll b, d.den ≠ 0) :
    barLength? unitLength b = some total ↔
      (∀ before e after, b = before ++ e :: after → Bar.Addable unitLength before e) ∧
        Duration.ofValue? (Bar.wholeNotes unitLength b) = some total := by
  rw [barLength?, foldlM_extend?_eq_some_iff hunit hden (by decide) (by decide),
    Duration.value_zero, zero_add]
  simp only [zero_add, Bar.addable_iff]

/-- There is none exactly if some element cannot be added to those before it. -/
theorem barLength?_eq_none_iff (hunit : unitLength.den ≠ 0)
    (hden : ∀ d ∈ Element.durationsAll b, d.den ≠ 0) :
    barLength? unitLength b = none ↔
      ∃ before e after, b = before ++ e :: after ∧ ¬Bar.Addable unitLength before e := by
  constructor
  · intro h
    by_contra hnot
    have hall : ∀ before e after, b = before ++ e :: after → Bar.Addable unitLength before e := by
      intro before e after hsplit
      by_contra he
      exact hnot ⟨before, e, after, hsplit, he⟩
    obtain ⟨total, htotal⟩ := Duration.fits_iff_exists.1 (Bar.fits_wholeNotes hall)
    rw [(barLength?_eq_some_iff hunit hden).2 ⟨hall, htotal⟩] at h
    cases h
  · rintro ⟨before, e, after, hsplit, he⟩
    by_contra h
    obtain ⟨total, htotal⟩ := Option.ne_none_iff_exists'.1 h
    exact he (((barLength?_eq_some_iff hunit hden).1 htotal).1 before e after hsplit)

end Feedback

end Tunebook
