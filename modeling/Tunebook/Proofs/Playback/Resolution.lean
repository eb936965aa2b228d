import Tunebook.Playback.Resolution
import Tunebook.Proofs.Duration
import Tunebook.Proofs.Playback.Items

namespace Tunebook

namespace Element

mutual

/-- The denominators that count for the resolution. A tuplet counts with its own length as well as
with all that it holds. -/
def denominators : Element → List Nat
  | note n => [n.duration.den.toNat]
  | rest d => [d.den.toNat]
  | accidental .. => []
  | chord notes => [(chordDuration notes).den.toNat]
  | tuplet size elements notes =>
    (tuplet size elements notes).duration?.toList.map
        (fun d => (Resolution.atLeastOne d.den).toNat) ++
      denominatorsAll elements

def denominatorsAll : List Element → List Nat
  | [] => []
  | e :: es => denominators e ++ denominatorsAll es

end

mutual

theorem den_mem_denominators (scale : Duration) (e : Element) :
    ∀ l ∈ (e.items scale).filterMap Item.leaf?, l.length.den.toNat ∈ e.denominators := by
  cases e with
  | note n => simp [items, denominators, Item.leaf?]
  | rest d => simp [items, denominators, Item.leaf?]
  | accidental pitch value => simp [items, Item.leaf?]
  | chord notes => simp [items, denominators, Item.leaf?]
  | tuplet size elements notes =>
    intro l hl
    rw [items] at hl
    rw [denominators]
    exact List.mem_append_right _ (den_mem_denominatorsAll (tupletScale size) elements l hl)

theorem den_mem_denominatorsAll (scale : Duration) (es : List Element) :
    ∀ l ∈ (itemsAll scale es).filterMap Item.leaf?, l.length.den.toNat ∈ denominatorsAll es := by
  cases es with
  | nil => simp [itemsAll]
  | cons e es =>
    intro l hl
    rw [itemsAll, List.filterMap_append, List.mem_append] at hl
    rw [denominatorsAll]
    rcases hl with hl | hl
    · exact List.mem_append_left _ (den_mem_denominators scale e l hl)
    · exact List.mem_append_right _ (den_mem_denominatorsAll scale es l hl)

end

end Element

theorem lcm?_eq (a b : UInt32) : lcm? a b = Word.fit32 (Nat.lcm a.toNat b.toNat) := by
  rw [lcm?, Nat.lcm_eq_mul_div, Nat.div_mul_right_comm (commonDivisor_dvd_left _ _)]
  by_cases hg : Nat.gcd a.toNat b.toNat = 0
  · simp [Nat.gcd_eq_zero_iff.1 hg]
  · rw [commonDivisor, Nat.max_eq_right (Nat.pos_of_ne_zero hg)]

theorem lcm?_dvd_iff {a b n : UInt32} (h : lcm? a b = some n) (m : Nat) :
    n.toNat ∣ m ↔ a.toNat ∣ m ∧ b.toNat ∣ m := by
  rw [lcm?_eq, Word.fit32_eq_some_iff] at h
  rw [h]
  exact Nat.lcm_dvd_iff

namespace Resolution

mutual

theorem ofElement?_dvd_iff {e : Element} {n : UInt32} (h : ofElement? e = some n) (m : Nat) :
    n.toNat ∣ m ↔ ∀ d ∈ e.denominators, d ∣ m := by
  cases e with
  | note k =>
    obtain rfl := Option.some.inj h
    simp [Element.denominators]
  | rest d =>
    obtain rfl := Option.some.inj h
    simp [Element.denominators]
  | accidental pitch value =>
    obtain rfl := Option.some.inj h
    simp [Element.denominators]
  | chord notes =>
    obtain rfl := Option.some.inj h
    simp [Element.denominators]
  | tuplet size elements k =>
    rw [ofElement?] at h
    split at h
    · cases h
    · rename_i d hd
      rw [Element.denominators, hd, ofElements?_dvd_iff h, List.forall_mem_append]
      simp

theorem ofElements?_dvd_iff {ticks n : UInt32} {es : List Element}
    (h : ofElements? ticks es = some n) (m : Nat) :
    n.toNat ∣ m ↔ ticks.toNat ∣ m ∧ ∀ d ∈ Element.denominatorsAll es, d ∣ m := by
  cases es with
  | nil =>
    obtain rfl := Option.some.inj h
    simp [Element.denominatorsAll]
  | cons e es =>
    rw [ofElements?] at h
    split at h
    · cases h
    · rename_i k hk
      split at h
      · cases h
      · rename_i next hnext
        rw [ofElements?_dvd_iff h, lcm?_dvd_iff hnext, ofElement?_dvd_iff hk,
          Element.denominatorsAll, List.forall_mem_append, and_assoc]

end

theorem foldlM_dvd_iff {bs : List Bar} {ticks n : UInt32}
    (h : bs.foldlM (fun ticks b => (ofBar? b).bind (lcm? ticks)) ticks = some n) (m : Nat) :
    n.toNat ∣ m ↔ ticks.toNat ∣ m ∧ ∀ b ∈ bs, ∀ d ∈ Element.denominatorsAll b, d ∣ m := by
  induction bs generalizing ticks with
  | nil =>
    obtain rfl := Option.some.inj h
    simp
  | cons b bs ih =>
    simp only [List.foldlM_cons, Option.bind_eq_bind, Option.bind_eq_some_iff] at h
    obtain ⟨next, ⟨k, hk, hnext⟩, h⟩ := h
    have hbar : k.toNat ∣ m ↔ ∀ d ∈ Element.denominatorsAll b, d ∣ m := by
      rw [ofElements?_dvd_iff hk]
      simp
    rw [ih h, lcm?_dvd_iff hnext, hbar, List.forall_mem_cons, and_assoc]

end Resolution

namespace Tune

def denominators (t : Tune) : List Nat :=
  (Resolution.atLeastOne t.defaultLength.den).toNat ::
    t.voices.flatMap fun v => v.played.flatMap Element.denominatorsAll

theorem resolution?_dvd_iff {t : Tune} {ticks : UInt32} (h : t.resolution? = some ticks)
    (m : Nat) : ticks.toNat ∣ m ↔ ∀ d ∈ t.denominators, d ∣ m := by
  rw [Resolution.foldlM_dvd_iff h, denominators, List.forall_mem_cons]
  simp only [List.forall_mem_flatMap]

theorem den_dvd_resolution? {t : Tune} {ticks : UInt32} (h : t.resolution? = some ticks)
    {v : Voice} (hv : v ∈ t.voices) {b : Bar} (hb : b ∈ v.played) {l : Leaf}
    (hl : l ∈ Bar.leaves b) : l.length.den.toNat ∣ ticks.toNat := by
  apply (resolution?_dvd_iff h ticks.toNat).1 (Nat.dvd_refl _)
  apply List.mem_cons_of_mem
  refine List.mem_flatMap.2 ⟨v, hv, List.mem_flatMap.2 ⟨b, hb, ?_⟩⟩
  exact Element.den_mem_denominatorsAll .unit b l hl

end Tune

end Tunebook
