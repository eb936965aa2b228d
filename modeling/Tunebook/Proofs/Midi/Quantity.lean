import Tunebook.Proofs.Midi.Decoding

namespace Tunebook.Midi

theorem leading_zero : leading 0 = [] := by
  rw [leading, if_pos rfl]

theorem leading_of_ne_zero {n : Nat} (h : n ≠ 0) :
    leading n = leading (n / 128) ++ [UInt8.ofNat (n % 128 + 128)] := by
  rw [leading, if_neg h]

theorem leading_push {high : Nat} {b : UInt8} (hb : 128 ≤ b.toNat)
    (h : high * 128 + (b.toNat - 128) ≠ 0) :
    leading (high * 128 + (b.toNat - 128)) = leading high ++ [b] := by
  have hlt : b.toNat < 256 := b.toNat_lt
  have hdiv : (high * 128 + (b.toNat - 128)) / 128 = high := by omega
  have hmod : (high * 128 + (b.toNat - 128)) % 128 + 128 = b.toNat := by omega
  rw [leading_of_ne_zero h, hdiv, hmod, UInt8.ofNat_toNat]

theorem quantity_push (high : Nat) {b : UInt8} (hb : b.toNat < 128) :
    quantity (high * 128 + b.toNat) = leading high ++ [b] := by
  have hdiv : (high * 128 + b.toNat) / 128 = high := by omega
  have hmod : (high * 128 + b.toNat) % 128 = b.toNat := by omega
  rw [quantity, hdiv, hmod, UInt8.ofNat_toNat]

theorem leading_marked (n : Nat) : ∀ b ∈ leading n, 128 ≤ b.toNat := by
  induction n using Nat.strongRecOn with
  | ind n ih =>
    by_cases h : n = 0
    · simp [h, leading_zero]
    · intro b hb
      rw [leading_of_ne_zero h, List.mem_append, List.mem_singleton] at hb
      rcases hb with hb | rfl
      · exact ih (n / 128) (by omega) b hb
      · rw [toNat_marked]
        exact Nat.le_add_left 128 _

theorem lt_pow_length_leading (n : Nat) : n < 128 ^ (leading n).length := by
  induction n using Nat.strongRecOn with
  | ind n ih =>
    by_cases h : n = 0
    · simp [h, leading_zero]
    · have hhigh := ih (n / 128) (by omega)
      rw [leading_of_ne_zero h, List.length_append, List.length_singleton, Nat.pow_succ]
      omega

theorem length_leading_le_iff (k n : Nat) : (leading n).length ≤ k ↔ n < 128 ^ k := by
  constructor
  · intro h
    exact (lt_pow_length_leading n).trans_le (Nat.pow_le_pow_right (by decide) h)
  · exact length_leading_le k n

/-- Once a group other than zero is read, the bytes are the only ones for their number. -/
theorem leading_append_of_quantity? {high n : Nat} {bytes rest : Bytes} (hhigh : high ≠ 0)
    (h : quantity? high bytes = some (n, rest)) : leading high ++ bytes = quantity n ++ rest := by
  induction bytes generalizing high with
  | nil => simp [quantity?] at h
  | cons b bytes ih =>
    by_cases hb : b.toNat < 128
    · rw [quantity?_cons_low _ _ hb, Option.some.injEq, Prod.mk.injEq] at h
      obtain ⟨rfl, rfl⟩ := h
      rw [quantity_push high hb, List.append_assoc, List.singleton_append]
    · have hb' : 128 ≤ b.toNat := by omega
      rw [quantity?_cons_high _ _ hb'] at h
      have hnext := ih (by omega) h
      rwa [leading_push hb' (by omega), List.append_assoc, List.singleton_append] at hnext

theorem exists_padding_of_quantity? {n : Nat} {bytes rest : Bytes}
    (h : quantity? 0 bytes = some (n, rest)) :
    ∃ k, bytes = List.replicate k 0x80 ++ (quantity n ++ rest) := by
  induction bytes with
  | nil => simp [quantity?] at h
  | cons b bytes ih =>
    by_cases hb : b.toNat < 128
    · rw [quantity?_cons_low _ _ hb, Option.some.injEq, Prod.mk.injEq] at h
      obtain ⟨rfl, rfl⟩ := h
      refine ⟨0, ?_⟩
      rw [quantity_push 0 hb, leading_zero]
      rfl
    · have hb' : 128 ≤ b.toNat := by omega
      rw [quantity?_cons_high _ _ hb'] at h
      by_cases hzero : b = 0x80
      · -- a group of zeros leaves nothing behind, so the rest is read from the start
        subst hzero
        obtain ⟨k, hk⟩ := ih h
        exact ⟨k + 1, by rw [List.replicate_succ, List.cons_append, ← hk]⟩
      · have hne : 0 * 128 + (b.toNat - 128) ≠ 0 := by
          intro h0
          exact hzero (UInt8.toNat_inj.1 (show b.toNat = 128 by omega))
        have hbytes := leading_append_of_quantity? hne h
        rw [leading_push hb' hne, leading_zero] at hbytes
        exact ⟨0, hbytes⟩

theorem quantity?_padding (k : Nat) (bytes : Bytes) :
    quantity? 0 (List.replicate k 0x80 ++ bytes) = quantity? 0 bytes := by
  induction k with
  | zero => rfl
  | succ k ih =>
    rw [List.replicate_succ, List.cons_append, quantity?_cons_high _ _ (by decide)]
    exact ih

theorem quantity?_eq_some_iff {n : Nat} {bytes rest : Bytes} :
    quantity? 0 bytes = some (n, rest) ↔
      ∃ k, bytes = List.replicate k 0x80 ++ (quantity n ++ rest) := by
  constructor
  · exact exists_padding_of_quantity?
  · rintro ⟨k, rfl⟩
    rw [quantity?_padding, quantity?_quantity]

/-- A quantity that began with a group of zeros would be read without it as well, and so would not
be the shortest. -/
theorem head?_quantity_ne (n : Nat) : (quantity n).head? ≠ some 0x80 := by
  intro h
  obtain ⟨bytes, hbytes⟩ := List.head?_eq_some_iff.1 h
  have hread : quantity? 0 (List.replicate 1 0x80 ++ bytes) = some (n, []) := by
    change quantity? 0 (0x80 :: bytes) = _
    rw [← hbytes, ← List.append_nil (quantity n)]
    exact quantity?_quantity n []
  rw [quantity?_padding] at hread
  obtain ⟨k, hk⟩ := quantity?_eq_some_iff.1 hread
  have hlength := congrArg List.length hk
  rw [hbytes] at hlength
  simp only [List.length_append, List.length_cons] at hlength
  omega

/-- Every number of 32 bits has one shortest code, which ends where its high bits say. -/
theorem quantity_uniquely_decodable (v : UInt32) (rest : Bytes) :
    quantity? 0 (quantity v.toNat ++ rest) = some (v.toNat, rest) ∧
    (∃ marked last, quantity v.toNat = marked ++ [last] ∧
      (∀ b ∈ marked, 128 ≤ b.toNat) ∧ last.toNat < 128) ∧
    (quantity v.toNat).head? ≠ some 0x80 ∧
    (quantity v.toNat).length ≤ 5 ∧
    ((quantity v.toNat).length ≤ 4 ↔ v.toNat < 2 ^ 28) ∧
    ∀ bytes, quantity? 0 bytes = some (v.toNat, rest) ↔
      ∃ k, bytes = List.replicate k 0x80 ++ (quantity v.toNat ++ rest) := by
  have hlast : (UInt8.ofNat (v.toNat % 128)).toNat < 128 := by
    rw [toNat_unmarked]
    exact Nat.mod_lt _ (by decide)
  have hfour : (quantity v.toNat).length ≤ 4 ↔ v.toNat < 2 ^ 28 := by
    have hthree := length_leading_le_iff 3 (v.toNat / 128)
    rw [quantity, List.length_append, List.length_singleton]
    omega
  exact ⟨quantity?_quantity _ rest, ⟨_, _, rfl, leading_marked _, hlast⟩, head?_quantity_ne _,
    length_quantity_le v.toNat_lt_size, hfour, fun _ => quantity?_eq_some_iff⟩

end Tunebook.Midi
