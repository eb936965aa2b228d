import Mathlib.Data.List.Induction
import Mathlib.Data.List.TakeWhile
import Tunebook.Text.Blank
import Tunebook.Text.Escaped
import Tunebook.Text.Numeral

namespace Tunebook.Text

theorem unescape_cons_of_ne (c : Char) (cs : List Char) (hp : c ≠ '%')
    (hb : c = '\\' → cs.head? ≠ some '%') : unescape (c :: cs) = c :: unescape cs := by
  rw [unescape.eq_def]
  split
  · simp_all
  · simp_all
  · rename_i heq
    cases heq
    rw [if_neg hp]

theorem escape_head?_ne (cs : List Char) : (escape cs).head? ≠ some '%' := by
  cases cs with
  | nil => simp [escape]
  | cons c cs =>
    by_cases hc : c = '%'
    · simp [escape, hc]
    · simp [escape, hc]

/-- A percent sign is never the first character of an escaped text, so no backslash of the text
itself is taken for an escape. -/
theorem unescape_escape_append (cs : List Char) {rest : List Char} (h : rest.head? ≠ some '%') :
    unescape (escape cs ++ rest) = cs ++ unescape rest := by
  induction cs with
  | nil => rfl
  | cons c cs ih =>
    by_cases hc : c = '%'
    · have he : escape (c :: cs) = '\\' :: '%' :: escape cs := by simp [escape, hc]
      rw [he, List.cons_append, List.cons_append, unescape, ih, hc, List.cons_append]
    · have he : escape (c :: cs) = c :: escape cs := by simp [escape, hc]
      have hnext : (escape cs ++ rest).head? ≠ some '%' := by
        cases hcs : escape cs with
        | nil => exact h
        | cons d ds =>
          have hd := escape_head?_ne cs
          rwa [hcs] at hd
      rw [he, List.cons_append, unescape_cons_of_ne c _ hc (fun _ => hnext), ih, List.cons_append]

theorem unescape_escape (cs : List Char) : unescape (escape cs) = cs := by
  have h := unescape_escape_append cs (show ([] : List Char).head? ≠ some '%' by simp)
  rwa [List.append_nil, unescape, List.append_nil] at h

theorem unescape_of_not_mem (cs : List Char) (h : '%' ∉ cs) : unescape cs = cs := by
  induction cs with
  | nil => rfl
  | cons c cs ih =>
    have hc : c ≠ '%' := fun hc => h (by simp [hc])
    have hcs : '%' ∉ cs := fun hc => h (by simp [hc])
    have hh : cs.head? ≠ some '%' := fun hh => hcs (List.mem_of_head? hh)
    rw [unescape_cons_of_ne c cs hc (fun _ => hh), ih hcs]

theorem unescape_subset (cs : List Char) : unescape cs ⊆ cs := by
  fun_induction unescape cs with
  | case1 => simp
  | case2 cs ih =>
    intro x hx
    rcases List.mem_cons.1 hx with rfl | hx
    · simp
    · exact List.mem_cons_of_mem _ (List.mem_cons_of_mem _ (ih hx))
  | case3 => simp
  | case4 c cs _ _ ih => exact List.cons_subset_cons c ih

theorem mem_escape (cs : List Char) (c : Char) (hc : c ∈ escape cs) : c ∈ cs ∨ c = '\\' := by
  obtain ⟨x, hx, hm⟩ := List.mem_flatMap.1 hc
  by_cases hp : x = '%'
  · rw [if_pos hp] at hm
    rcases List.mem_cons.1 hm with rfl | hm
    · exact Or.inr rfl
    · exact Or.inl (by rw [List.mem_singleton.1 hm, ← hp]; exact hx)
  · rw [if_neg hp] at hm
    exact Or.inl (by rw [List.mem_singleton.1 hm]; exact hx)

theorem trimLeft_sublist (cs : List Char) : (trimLeft cs).Sublist cs :=
  List.dropWhile_sublist _

theorem trimRight_sublist (cs : List Char) : (trimRight cs).Sublist cs := by
  have h := (List.dropWhile_sublist isBlank (l := cs.reverse)).reverse
  rwa [List.reverse_reverse] at h

theorem trim_sublist (cs : List Char) : (trim cs).Sublist cs :=
  (trimRight_sublist _).trans (trimLeft_sublist cs)

theorem trimLeft_eq_self (cs : List Char) (h : ∀ c ∈ cs.head?, isBlank c = false) :
    trimLeft cs = cs := by
  cases cs with
  | nil => rfl
  | cons c cs =>
    have hc : isBlank c = false := h c (by simp)
    simp [trimLeft, hc]

theorem trimRight_eq_self (cs : List Char) (h : ∀ c ∈ cs.getLast?, isBlank c = false) :
    trimRight cs = cs := by
  have hr : trimLeft cs.reverse = cs.reverse :=
    trimLeft_eq_self _ (by rw [List.head?_reverse]; exact h)
  change (trimLeft cs.reverse).reverse = cs
  rw [hr, List.reverse_reverse]

theorem trimLeft_head? (cs : List Char) : ∀ c ∈ (trimLeft cs).head?, isBlank c = false := by
  intro c hc
  have h := List.head?_dropWhile_not isBlank cs
  rw [show cs.dropWhile isBlank = trimLeft cs from rfl, Option.mem_def.1 hc] at h
  simpa using h

theorem trimRight_getLast? (cs : List Char) :
    ∀ c ∈ (trimRight cs).getLast?, isBlank c = false := by
  intro c hc
  change c ∈ (trimLeft cs.reverse).reverse.getLast? at hc
  rw [List.getLast?_reverse] at hc
  exact trimLeft_head? cs.reverse c hc

theorem trimRight_head? (cs : List Char) (h : ∀ c ∈ cs.head?, isBlank c = false) :
    ∀ c ∈ (trimRight cs).head?, isBlank c = false := by
  intro c hc
  have hp : trimRight cs <+: cs := by
    have hs : trimLeft cs.reverse <:+ cs.reverse := List.dropWhile_suffix _
    apply List.reverse_suffix.1
    change (trimLeft cs.reverse).reverse.reverse <:+ _
    simpa using hs
  obtain ⟨rest, hrest⟩ := hp
  cases ht : trimRight cs with
  | nil => rw [ht] at hc; simp at hc
  | cons d ds =>
    rw [ht] at hc hrest
    have hd : d = c := by simpa using hc
    exact h c (by rw [← hrest, hd]; simp)

theorem trim_trim (cs : List Char) : trim (trim cs) = trim cs := by
  have hl : trimLeft (trim cs) = trim cs :=
    trimLeft_eq_self _ (trimRight_head? _ (trimLeft_head? cs))
  rw [trim, hl]
  exact trimRight_eq_self _ (trimRight_getLast? _)

theorem trim_of_forall_not_blank (cs : List Char) (h : ∀ c ∈ cs, isBlank c = false) :
    trim cs = cs := by
  have hl : trimLeft cs = cs := trimLeft_eq_self cs (fun c hc => h c (List.mem_of_head? hc))
  rw [trim, hl]
  exact trimRight_eq_self cs (fun c hc => h c (List.mem_of_getLast? hc))

theorem firstWord_of_forall_not_blank (cs : List Char) (h : ∀ c ∈ cs, isBlank c = false) :
    firstWord cs = cs := by
  have hl : trimLeft cs = cs := trimLeft_eq_self cs (fun c hc => h c (List.mem_of_head? hc))
  rw [firstWord, hl]
  exact List.takeWhile_eq_self_iff.2 (fun c hc => by simp [h c hc])

theorem firstWord_not_blank (cs : List Char) : ∀ c ∈ firstWord cs, isBlank c = false := by
  intro c hc
  have h := List.mem_takeWhile_imp hc
  simpa using h

theorem splitOnce_append (sep : Char) (before after : List Char) (h : sep ∉ before) :
    splitOnce sep (before ++ sep :: after) = some (before, after) := by
  induction before with
  | nil => simp [splitOnce]
  | cons c cs ih =>
    have hc : c ≠ sep := fun hc => h (by simp [hc])
    have hcs : sep ∉ cs := fun hm => h (List.mem_cons_of_mem _ hm)
    simp [splitOnce, hc, ih hcs]

theorem splitOnce_eq_none (sep : Char) (cs : List Char) (h : sep ∉ cs) :
    splitOnce sep cs = none := by
  induction cs with
  | nil => rfl
  | cons c cs ih =>
    simp only [List.mem_cons, not_or] at h
    simp [splitOnce, Ne.symm h.1, ih h.2]

theorem splitAll_ne_nil (sep : Char) (cs : List Char) : splitAll sep cs ≠ [] := by
  cases cs with
  | nil => simp [splitAll]
  | cons c cs =>
    rw [splitAll]
    split
    · simp
    · split <;> simp

theorem splitAll_of_not_mem {sep : Char} {cs : List Char} (h : sep ∉ cs) :
    splitAll sep cs = [cs] := by
  induction cs with
  | nil => rfl
  | cons c cs ih =>
    obtain ⟨hc, hcs⟩ := not_or.1 (List.mem_cons.not.1 h)
    rw [splitAll, if_neg (Ne.symm hc), ih hcs]

theorem splitAll_append_cons (sep : Char) (before after : List Char) :
    splitAll sep (before ++ sep :: after) = splitAll sep before ++ splitAll sep after := by
  induction before with
  | nil => simp [splitAll]
  | cons c cs ih =>
    rw [List.cons_append, splitAll, splitAll, ih]
    split
    · rfl
    · cases hcs : splitAll sep cs with
      | nil => exact absurd hcs (splitAll_ne_nil sep cs)
      | cons p ps => rfl

theorem decimal_ne_nil (n : Nat) : decimal n ≠ [] :=
  Nat.toDigits_ne_nil

theorem isDigit_of_mem_decimal (n : Nat) (c : Char) (hc : c ∈ decimal n) : c.isDigit = true :=
  Nat.isDigit_of_mem_toDigits (by decide) (by decide) hc

theorem digits?_decimal (n : Nat) : digits? (decimal n) = some n := by
  have ha : (decimal n).all Char.isDigit = true :=
    List.all_eq_true.2 (isDigit_of_mem_decimal n)
  have hv : Nat.ofDigitChars 10 (decimal n) 0 = n := Nat.ofDigitChars_ten_toDigits
  simp [digits?, ha, hv, decimal_ne_nil]

theorem isBlank_of_isDigit (c : Char) (hc : c.isDigit = true) : isBlank c = false := by
  have h : 48 ≤ c.toNat ∧ c.toNat ≤ 57 := by
    simpa [Char.isDigit, UInt32.le_iff_toNat_le] using hc
  simp only [isBlank, Bool.or_eq_false_iff, Bool.and_eq_false_iff, decide_eq_false_iff_not,
    beq_eq_false_iff_ne]
  omega

theorem decimal_not_blank (n : Nat) : ∀ c ∈ decimal n, isBlank c = false :=
  fun c hc => isBlank_of_isDigit c (isDigit_of_mem_decimal n c hc)

theorem not_mem_decimal (n : Nat) (c : Char) (hc : c.isDigit = false) : c ∉ decimal n := by
  intro hm
  rw [isDigit_of_mem_decimal n c hm] at hc
  exact Bool.noConfusion hc

theorem numeral?_decimal (n : Nat) : numeral? (decimal n) = some n := by
  cases hd : decimal n with
  | nil => exact absurd hd (decimal_ne_nil n)
  | cons c cs =>
    have hc : c ≠ '+' := by
      rintro rfl
      exact not_mem_decimal n '+' (by decide) (by rw [hd]; simp)
    have hn : numeral? (c :: cs) = digits? (c :: cs) := by
      rw [numeral?.eq_def]
      split
      · simp_all
      · rfl
    rw [hn, ← hd, digits?_decimal]

/-- Decimal digits and the number they spell. -/
inductive Spells : List Char → Nat → Prop where
  | digit {d : Nat} (hd : d < 10) : Spells [d.digitChar] d
  | concat {cs : List Char} {n d : Nat} (hcs : Spells cs n) (hd : d < 10) :
    Spells (cs ++ [d.digitChar]) (10 * n + d)

theorem exists_digitChar {c : Char} (h : c.isDigit = true) : ∃ d < 10, c = d.digitChar := by
  obtain ⟨hlow, hhigh⟩ := Char.isDigit_iff_toNat.1 h
  change 48 ≤ c.toNat at hlow
  change c.toNat ≤ 57 at hhigh
  have hd : c.toNat - 48 < 10 := by omega
  refine ⟨c.toNat - 48, hd, ?_⟩
  rw [← Char.toNat_inj, Nat.toNat_digitChar_of_lt_ten hd]
  omega

theorem ofDigitChars_concat (cs : List Char) {d : Nat} (hd : d < 10) :
    Nat.ofDigitChars 10 (cs ++ [d.digitChar]) 0 = 10 * Nat.ofDigitChars 10 cs 0 + d := by
  rw [Nat.ofDigitChars_append, Nat.ofDigitChars_cons, Nat.toNat_digitChar_of_lt_ten hd]
  simp [Nat.ofDigitChars]

theorem digits?_of_spells {cs : List Char} {n : Nat} (h : Spells cs n) :
    digits? cs = some n := by
  have hall : cs.all Char.isDigit = true := by
    induction h with
    | digit hd => simp [Nat.isDigit_digitChar, hd]
    | concat hcs hd ih => simp [List.all_append, ih, Nat.isDigit_digitChar, hd]
  have hvalue : Nat.ofDigitChars 10 cs 0 = n := by
    induction h with
    | digit hd => simpa using ofDigitChars_concat [] hd
    | concat hcs hd ih =>
      simp only [List.all_append, Bool.and_eq_true] at hall
      rw [ofDigitChars_concat _ hd, ih hall.1]
  have hne : cs ≠ [] := by cases h <;> simp
  simp [digits?, hall, hvalue, hne]

theorem spells_ofDigitChars {cs : List Char} (hne : cs ≠ []) (h : ∀ c ∈ cs, c.isDigit = true) :
    Spells cs (Nat.ofDigitChars 10 cs 0) := by
  induction cs using List.reverseRecOn with
  | nil => exact absurd rfl hne
  | append_singleton cs c ih =>
    rw [List.forall_mem_append, List.forall_mem_singleton] at h
    obtain ⟨d, hd, rfl⟩ := exists_digitChar h.2
    rw [ofDigitChars_concat cs hd]
    cases cs with
    | nil =>
      rw [show 10 * Nat.ofDigitChars 10 [] 0 + d = d by simp [Nat.ofDigitChars]]
      exact .digit hd
    | cons c cs => exact .concat (ih (by simp) h.1) hd

theorem digits?_eq_some_iff {cs : List Char} {n : Nat} : digits? cs = some n ↔ Spells cs n := by
  refine ⟨?_, digits?_of_spells⟩
  intro h
  unfold digits? at h
  split at h
  · rename_i hcs
    rw [Bool.and_eq_true, Bool.not_eq_true', List.isEmpty_eq_false_iff, List.all_eq_true] at hcs
    obtain rfl := Option.some.inj h
    exact spells_ofDigitChars hcs.1 hcs.2
  · cases h

theorem numeral?_eq_some_iff {cs : List Char} {n : Nat} :
    numeral? cs = some n ↔ ∃ digits, Spells digits n ∧ (cs = digits ∨ cs = '+' :: digits) := by
  have hsign (digits : List Char) : ¬Spells ('+' :: digits) n := by
    intro h
    rw [← digits?_eq_some_iff] at h
    simp [digits?] at h
  fun_cases numeral? cs with
  | case1 cs =>
    rw [digits?_eq_some_iff]
    constructor
    · intro h
      exact ⟨cs, h, .inr rfl⟩
    · rintro ⟨digits, h, rfl | heq⟩
      · exact absurd h (hsign cs)
      · obtain ⟨-, rfl⟩ := List.cons.inj heq
        exact h
  | case2 =>
    rename_i hplus
    rw [digits?_eq_some_iff]
    constructor
    · intro h
      exact ⟨cs, h, .inl rfl⟩
    · rintro ⟨digits, h, rfl | rfl⟩
      · exact h
      · exact absurd rfl (hplus digits)

/-- The texts of a byte: the digits that spell it, with or without a plus sign before them. -/
def IsByte (text : String) (b : UInt8) : Prop :=
  ∃ digits, Spells digits b.toNat ∧ (text.toList = digits ∨ text.toList = '+' :: digits)

end Tunebook.Text
