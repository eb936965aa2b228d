import Mathlib.Algebra.Order.Floor.Semifield
import Mathlib.Data.Rat.Floor
import Mathlib.Tactic.FieldSimp
import Mathlib.Tactic.Ring
import Tunebook.Compilation
import Tunebook.Proofs.Playback.Sounding
import Tunebook.Proofs.Tune.Lengths
import Tunebook.Proofs.Tune.Reading

namespace Tunebook

namespace Sounding

def writtenTicks (c : Clock) (s : Sounding) : ℚ :=
  c.ticksPerQuarter.toNat * 4 * s.length.value * c.unitLength.value

def exactTicks (c : Clock) (s : Sounding) : ℚ :=
  s.writtenTicks c * s.scale.value

/-- The ticks come out whole, both as written and after the scale. Where the scale is zero nothing
has to. -/
def Whole (c : Clock) (s : Sounding) : Prop :=
  let ticks := c.ticksPerQuarter.toNat * 4 * s.length.num.toNat * c.unitLength.num.toNat
  let parts := s.length.den.toNat * c.unitLength.den.toNat
  s.scale.num.toNat = 0 ∨
    parts ∣ ticks ∧ parts * s.scale.den.toNat ∣ ticks * s.scale.num.toNat

instance (c : Clock) (s : Sounding) : Decidable (s.Whole c) :=
  inferInstanceAs (Decidable (_ ∨ _ ∧ _))

end Sounding

theorem Word.fit64_toNat {n : Nat} {w : UInt64} (h : Word.fit64 n = some w) : w.toNat = n := by
  unfold Word.fit64 at h
  split at h
  · obtain rfl := Option.some.inj h
    exact UInt64.toNat_ofNatLT
  · cases h

theorem Duration.ticks?_toNat {d : Duration} {ticks w : UInt64} (h : d.ticks? ticks = some w) :
    w.toNat = ticks.toNat * d.num.toNat / d.den.toNat := by
  unfold Duration.ticks? at h
  split at h
  · rename_i hd
    obtain rfl := Option.some.inj h
    simp [hd]
  · exact Word.fit64_toNat h

theorem Clock.ticks?_toNat {c : Clock} {scale d : Duration} {ticks : UInt32}
    (h : c.ticks? scale d = some ticks) :
    ticks.toNat =
      c.ticksPerQuarter.toNat * d.num.toNat / d.den.toNat * 4 * c.unitLength.num.toNat /
        c.unitLength.den.toNat * scale.num.toNat / scale.den.toNat := by
  simp only [ticks?, Option.bind_eq_bind, Option.bind_eq_some_iff] at h
  obtain ⟨quarters, hq, whole, hw, written, hwritten, scaled, hs, ht⟩ := h
  rw [Word.fit32_eq_some_iff.1 ht, Duration.ticks?_toNat hs, Duration.ticks?_toNat hwritten,
    Word.fit64_toNat hw, Duration.ticks?_toNat hq, UInt32.toNat_toUInt64]

/-- Rounding down before a factor and after it loses nothing exactly if both are whole, or the
factor is zero. -/
theorem floor_floor_mul_eq_iff {x factor : ℚ} (hx : 0 ≤ x) (hf : 0 ≤ factor) :
    (⌊(⌊x⌋₊ : ℚ) * factor⌋₊ : ℚ) = x * factor ↔
      factor = 0 ∨ (∃ k : ℕ, x = k) ∧ ∃ k : ℕ, x * factor = k := by
  constructor
  · intro h
    rcases hf.eq_or_lt with h0 | hpos
    · exact Or.inl h0.symm
    · -- rounding down only loses, so nothing lost in the end means nothing lost before
      refine Or.inr ⟨⟨⌊x⌋₊, ?_⟩, ⟨_, h.symm⟩⟩
      have hle : (⌊x⌋₊ : ℚ) * factor ≤ x * factor :=
        mul_le_mul_of_nonneg_right (Nat.floor_le hx) hf
      have hge : x * factor ≤ (⌊x⌋₊ : ℚ) * factor := by
        rw [← h]
        exact Nat.floor_le (mul_nonneg (Nat.cast_nonneg _) hf)
      exact mul_right_cancel₀ hpos.ne' (le_antisymm hge hle)
  · rintro (rfl | ⟨⟨k, rfl⟩, m, hm⟩)
    · simp
    · rw [Nat.floor_natCast, hm, Nat.floor_natCast]

theorem exists_natCast_eq_div_iff {a b : ℕ} (hb : b ≠ 0) :
    (∃ k : ℕ, (a : ℚ) / b = k) ↔ b ∣ a := by
  have hb' : (b : ℚ) ≠ 0 := Nat.cast_ne_zero.2 hb
  constructor
  · rintro ⟨k, hk⟩
    rw [div_eq_iff hb'] at hk
    exact ⟨k, by rw [mul_comm]; exact_mod_cast hk⟩
  · rintro ⟨k, rfl⟩
    exact ⟨k, by rw [Nat.cast_mul, mul_div_cancel_left₀ _ hb']⟩

/-- At a resolution that fits the length, ticks are rounded only when the unit length is applied
and when the scale is. -/
theorem Clock.ticks?_eq_floor {c : Clock} {scale d : Duration} {ticks : UInt32}
    (h : c.ticks? scale d = some ticks) (hne : d.den ≠ 0)
    (hd : d.den.toNat ∣ c.ticksPerQuarter.toNat) :
    ticks.toNat =
      ⌊(⌊c.ticksPerQuarter.toNat * 4 * d.value * c.unitLength.value⌋₊ : ℚ) * scale.value⌋₊ := by
  obtain ⟨k, hk⟩ := hd
  have hpos := d.den_pos hne
  have hwritten : c.ticksPerQuarter.toNat * 4 * d.value * c.unitLength.value =
      ((k * d.num.toNat * 4 * c.unitLength.num.toNat : ℕ) : ℚ) / c.unitLength.den.toNat := by
    have hne' := Duration.den_cast_ne_zero hne
    rw [Duration.value, Duration.value, hk]
    push_cast
    field_simp
  have hfirst : c.ticksPerQuarter.toNat * d.num.toNat / d.den.toNat = k * d.num.toNat := by
    rw [hk, Nat.mul_assoc, Nat.mul_div_cancel_left _ hpos]
  rw [Clock.ticks?_toNat h, hfirst, hwritten, Nat.floor_div_eq_div, Duration.value,
    ← mul_div_assoc, ← Nat.cast_mul, Nat.floor_div_eq_div]

namespace Sounding

variable {c : Clock} {s : Sounding}

/-- The ticks are exact where they come out whole, and nowhere else. -/
theorem ticks?_eq_exactTicks_iff {ticks : UInt32} (h : c.ticks? s.scale s.length = some ticks)
    (hl : s.length.den ≠ 0) (hu : c.unitLength.den ≠ 0) (hs : s.scale.den ≠ 0)
    (hd : s.length.den.toNat ∣ c.ticksPerQuarter.toNat) :
    (ticks.toNat : ℚ) = s.exactTicks c ↔ s.Whole c := by
  have hparts : s.length.den.toNat * c.unitLength.den.toNat ≠ 0 :=
    Nat.mul_ne_zero (s.length.den_pos hl).ne' (c.unitLength.den_pos hu).ne'
  have hscale : s.scale.den.toNat ≠ 0 := (s.scale.den_pos hs).ne'
  have hwritten : s.writtenTicks c =
      ((c.ticksPerQuarter.toNat * 4 * s.length.num.toNat * c.unitLength.num.toNat : ℕ) : ℚ) /
        (s.length.den.toNat * c.unitLength.den.toNat : ℕ) := by
    rw [writtenTicks, Duration.value, Duration.value]
    push_cast
    field_simp
  have hexact : s.writtenTicks c * s.scale.value =
      ((c.ticksPerQuarter.toNat * 4 * s.length.num.toNat * c.unitLength.num.toNat *
          s.scale.num.toNat : ℕ) : ℚ) /
        (s.length.den.toNat * c.unitLength.den.toNat * s.scale.den.toNat : ℕ) := by
    rw [hwritten, Duration.value]
    push_cast
    field_simp
  have hzero : s.scale.value = 0 ↔ s.scale.num.toNat = 0 := by
    rw [Duration.value, div_eq_zero_iff, Nat.cast_eq_zero, Nat.cast_eq_zero, or_iff_left hscale]
  have hnonneg : 0 ≤ s.writtenTicks c := by
    rw [hwritten]
    positivity
  rw [Clock.ticks?_eq_floor h hl hd, ← writtenTicks, exactTicks,
    floor_floor_mul_eq_iff hnonneg s.scale.value_nonneg, hzero, hexact, hwritten,
    exists_natCast_eq_div_iff hparts, exists_natCast_eq_div_iff (Nat.mul_ne_zero hparts hscale)]
  rfl

end Sounding

theorem tupletScale_den_ne_zero (size : UInt32) : (tupletScale size).den ≠ 0 := by
  unfold tupletScale
  split_ifs <;> decide

theorem Element.Notated.leaves_den {run : Run} {es : List Element} (h : Notated run es)
    (scale : Duration) (hs : scale.den ≠ 0) :
    ∀ l ∈ (itemsAll scale es).filterMap Item.leaf?, l.length.den ≠ 0 ∧ l.scale.den ≠ 0 := by
  induction h generalizing scale with
  | nil => simp [itemsAll]
  | accidental h ih =>
    rw [itemsAll, items]
    exact ih scale hs
  | note hr hn hp h ih =>
    rw [itemsAll, items, List.filterMap_append, List.forall_mem_append]
    exact ⟨List.forall_mem_singleton.2 ⟨hn.den_ne_zero, hs⟩, ih scale hs⟩
  | rest hd h ih =>
    rw [itemsAll, items, List.filterMap_append, List.forall_mem_append]
    exact ⟨List.forall_mem_singleton.2 ⟨hd, hs⟩, ih scale hs⟩
  | @chord run notes es hr hne hn hp h ih =>
    have hden : (chordDuration notes).den ≠ 0 := by
      obtain ⟨n, ns, rfl⟩ := List.exists_cons_of_ne_nil hne
      exact (hn n List.mem_cons_self).den_ne_zero
    rw [itemsAll, items, List.filterMap_append, List.forall_mem_append]
    exact ⟨List.forall_mem_singleton.2 ⟨hden, hs⟩, ih scale hs⟩
  | @tuplet size elements notes es hf hi h ihInner ih =>
    rw [itemsAll, items, List.filterMap_append, List.forall_mem_append]
    exact ⟨ihInner _ (tupletScale_den_ne_zero size), ih scale hs⟩

theorem Voice.mem_played_iff {v : Voice} {b : Bar} : b ∈ v.played ↔ b ∈ v.bars := by
  have hphrase : ∀ p : Phrase, b ∈ p.played ↔ b ∈ p.bars := by
    intro p
    cases p with
    | bar b' => rfl
    | repeated r =>
      simp only [Phrase.played, Repeat.played, Phrase.bars, Repeat.bars, List.mem_append]
      tauto
  simp only [Voice.played, Voice.bars, List.mem_flatMap, hphrase]

theorem Voice.mem_bars_of_played {v : Voice} {b : Bar} (h : b ∈ v.played) : b ∈ v.bars :=
  mem_played_iff.1 h

theorem Tune.WellFormed.soundings_den {t : Tune} (h : t.WellFormed) :
    ∀ s ∈ t.soundings, s.length.den ≠ 0 ∧ s.scale.den ≠ 0 := by
  intro s hs
  obtain ⟨v, hv, b, hb, l, hl, hlength, hscale⟩ := mem_soundings hs
  have hb := h.bars v hv b (Voice.mem_bars_of_played hb)
  rw [hlength, hscale]
  exact hb.2.leaves_den .unit (by decide) l hl

namespace Compilation

def clock (c : Compilation) : Clock :=
  ⟨c.ticksPerQuarter, c.tune.defaultLength⟩

theorem ofText_eq_ok {text : String} {c : Compilation} (h : ofText text = .ok c) :
    Tune.read text = .ok c.tune ∧ c.tune.resolution? = some c.ticksPerQuarter ∧
      c.tune.events? c.ticksPerQuarter = some c.events := by
  unfold ofText at h
  split at h
  · cases h
  · rename_i tune ht
    unfold ofTune at h
    split at h
    · cases h
    · rename_i ticks hticks
      split at h
      · cases h
      · rename_i events hevents
        obtain rfl := Except.ok.inj h
        exact ⟨ht, hticks, hevents⟩

/-- Whatever text is compiled: each note that sounds has its event, in order, and the event lasts
exactly as long as it should if and only if the ticks of the note come out whole. -/
theorem duration_exact_iff (text : String) (c : Compilation) (h : ofText text = .ok c) :
    List.Forall₂ (fun s e => e.voice = s.voice ∧ e.pitch.alike s.pitch = true ∧
        ((e.duration.toNat : ℚ) = s.exactTicks c.clock ↔ s.Whole c.clock))
      c.tune.soundings c.events := by
  obtain ⟨hread, hticks, hevents⟩ := ofText_eq_ok h
  have hwell := Tune.ofTokens_sound (Lexed.ofText_scannable text) hread
  have hden := hwell.soundings_den
  have hdvd := Tune.resolution?_dvd hticks
  have hall := (List.forall₂_and_left _ _).2
    ⟨fun s hs => And.intro (hden s hs) (hdvd s hs), Tune.events?_playedAs hevents⟩
  refine hall.imp ?_
  rintro s e ⟨⟨⟨hl, hs⟩, hd⟩, hp⟩
  exact ⟨hp.voice, hp.pitch,
    Sounding.ticks?_eq_exactTicks_iff hp.ticks hl hwell.header.defaultLength hs hd⟩

/-- The notes of a triplet of one tick each are given none. -/
theorem duration_exact_iff_triplet :
    ∃ c, ofText "L:1/8\n(3C3/8D3/8E3/8" = .ok c ∧
      ∃ s e, (s, e) ∈ c.tune.soundings.zip c.events ∧ e.duration = 0 ∧
        (e.duration.toNat : ℚ) ≠ s.exactTicks c.clock := by
  obtain ⟨c, hc, hany⟩ := exists_of_any (show (ofText "L:1/8\n(3C3/8D3/8E3/8").toOption.any
    (fun c => (c.tune.soundings.zip c.events).any fun p =>
      decide (p.2.duration = 0 ∧ ¬p.1.Whole c.clock)) = true by decide +kernel)
  obtain ⟨⟨s, e⟩, hp, hd⟩ := List.any_eq_true.1 hany
  obtain ⟨hzero, hwhole⟩ := of_decide_eq_true hd
  refine ⟨c, hc, s, e, hp, hzero, fun he => hwhole ?_⟩
  exact (List.forall₂_zip (duration_exact_iff _ c hc) hp).2.2.1 he

end Compilation

end Tunebook
