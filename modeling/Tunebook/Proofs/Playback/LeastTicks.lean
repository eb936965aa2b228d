import Tunebook.Proofs.Playback.Measures
import Tunebook.Tune.Reader

namespace Tunebook

namespace Element

mutual

/-- The lengths that count for the resolution: those of notes and rests, of the first note of a
chord, and of a tuplet as a whole, which may have none. -/
def counted : Element → List (Option Duration)
  | note n => [some n.duration]
  | rest d => [some d]
  | accidental .. => []
  | chord notes => (notes.take 1).map fun n => some n.duration
  | tuplet size elements notes =>
    (tuplet size elements notes).duration? :: countedAll elements

def countedAll : List Element → List (Option Duration)
  | [] => []
  | e :: es => counted e ++ countedAll es

end

end Element

/-- What counts in the header and in the bars as they are stored. -/
def Tune.counted (t : Tune) : List (Option Duration) :=
  some t.defaultLength :: t.voices.flatMap fun v => v.bars.flatMap Element.countedAll

namespace Resolution

def least : List (Option Duration) → Nat
  | [] => 1
  | none :: ls => least ls
  | some d :: ls => Nat.lcm d.den.toNat (least ls)

/-- The least common multiple of the denominators, if there are all the lengths and it fits. -/
def least? (ls : List (Option Duration)) : Option UInt32 :=
  if none ∈ ls then none else Word.fit32 (least ls)

def Positive (ls : List (Option Duration)) : Prop :=
  ∀ d, some d ∈ ls → d.den ≠ 0

variable {ls ms : List (Option Duration)}

theorem positive_append : Positive (ls ++ ms) ↔ Positive ls ∧ Positive ms := by
  simp only [Positive, List.mem_append, or_imp, forall_and]

theorem least_dvd_iff {m : Nat} : least ls ∣ m ↔ ∀ d, some d ∈ ls → d.den.toNat ∣ m := by
  fun_induction least ls with
  | case1 => simp
  | case2 ls ih => simp [ih]
  | case3 d ls ih =>
    rw [Nat.lcm_dvd_iff, ih]
    simp

theorem least_append (ls ms : List (Option Duration)) :
    least (ls ++ ms) = Nat.lcm (least ls) (least ms) := by
  fun_induction least ls with
  | case1 => rw [List.nil_append, Nat.lcm_one_left]
  | case2 ls ih => exact ih
  | case3 d ls ih => rw [List.cons_append, least, ih, Nat.lcm_assoc]

theorem least_pos (h : Positive ls) : 0 < least ls := by
  fun_induction least ls with
  | case1 => exact Nat.one_pos
  | case2 ls ih => exact ih fun d hd => h d (List.mem_cons_of_mem none hd)
  | case3 d ls ih =>
    have hd := d.den_pos (h d List.mem_cons_self)
    exact Nat.lcm_pos hd (ih fun d' hd' => h d' (List.mem_cons_of_mem (some d) hd'))

theorem least?_eq_some_iff {ticks : UInt32} :
    least? ls = some ticks ↔ none ∉ ls ∧ ticks.toNat = least ls := by
  by_cases h : none ∈ ls <;> simp [least?, h, Word.fit32_eq_some_iff]

theorem least?_eq_none_iff : least? ls = none ↔ none ∈ ls ∨ UInt32.size ≤ least ls := by
  by_cases h : none ∈ ls <;> simp [least?, h, Word.fit32_eq_none_iff]

theorem least?_singleton {d : Duration} : least? [some d] = some d.den := by
  rw [least?_eq_some_iff]
  simp [least]

/-- A part whose multiple does not fit leaves none for the whole, so it does no harm to stop
there. -/
theorem least?_append (hl : Positive ls) (hm : Positive ms) :
    least? (ls ++ ms) = (least? ls).bind fun a => (least? ms).bind (lcm? a) := by
  have hlpos := least_pos hl
  have hmpos := least_pos hm
  apply Option.ext
  intro ticks
  rw [least?_eq_some_iff, least_append]
  simp only [Option.bind_eq_some_iff, least?_eq_some_iff, lcm?_eq, Word.fit32_eq_some_iff]
  constructor
  · rintro ⟨hnone, hticks⟩
    rw [List.mem_append, not_or] at hnone
    have hfits : Nat.lcm (least ls) (least ms) < UInt32.size := hticks ▸ ticks.toNat_lt_size
    have hlfits := Nat.le_of_dvd (Nat.lcm_pos hlpos hmpos) (Nat.dvd_lcm_left (least ls) (least ms))
    have hmfits := Nat.le_of_dvd (Nat.lcm_pos hlpos hmpos) (Nat.dvd_lcm_right (least ls) (least ms))
    refine ⟨UInt32.ofNatLT (least ls) (by omega), ⟨hnone.1, UInt32.toNat_ofNatLT⟩,
      UInt32.ofNatLT (least ms) (by omega), ⟨hnone.2, UInt32.toNat_ofNatLT⟩, ?_⟩
    rw [UInt32.toNat_ofNatLT, UInt32.toNat_ofNatLT, hticks]
  · rintro ⟨a, ⟨hl', ha⟩, b, ⟨hm', hb⟩, hticks⟩
    rw [List.mem_append, not_or, hticks, ha, hb]
    exact ⟨⟨hl', hm'⟩, rfl⟩

/-- Neither order nor repetition counts. -/
theorem least?_congr (h : ∀ d, d ∈ ls ↔ d ∈ ms) : least? ls = least? ms := by
  have hleast : least ls = least ms := by
    apply Nat.dvd_antisymm <;> rw [least_dvd_iff] <;> intro d hd
    · exact least_dvd_iff.1 (Nat.dvd_refl _) d ((h _).1 hd)
    · exact least_dvd_iff.1 (Nat.dvd_refl _) d ((h _).2 hd)
  rw [least?, least?, hleast]
  simp only [h]

theorem positive_congr (h : ∀ d, d ∈ ls ↔ d ∈ ms) (hl : Positive ls) : Positive ms :=
  fun d hd => hl d ((h _).2 hd)

mutual

theorem ofElement?_eq_least? {e : Element} (h : Positive e.counted) :
    ofElement? e = least? e.counted := by
  cases e with
  | note n => rw [ofElement?, Element.counted, least?_singleton]
  | rest d => rw [ofElement?, Element.counted, least?_singleton]
  | accidental pitch value => rfl
  | chord notes =>
    cases notes with
    | nil => rfl
    | cons n notes => exact least?_singleton.symm
  | tuplet size elements k =>
    rw [ofElement?, Element.counted]
    rw [Element.counted] at h
    cases hd : (Element.tuplet size elements k).duration? with
    | none => simp [least?]
    | some d =>
      rw [hd, ← List.singleton_append, positive_append] at h
      have hne : d.den ≠ 0 := h.1 d List.mem_cons_self
      have hinner := ofElements?_eq_least? h.1 h.2
      rw [least?_singleton, Option.bind_some] at hinner
      simp only [atLeastOne, if_neg hne]
      exact hinner

theorem ofElements?_eq_least? {ls : List (Option Duration)} {es : List Element}
    (hl : Positive ls) (h : Positive (Element.countedAll es)) :
    (least? ls).bind (fun ticks => ofElements? ticks es) =
      least? (ls ++ Element.countedAll es) := by
  cases es with
  | nil =>
    rw [Element.countedAll, List.append_nil]
    exact Option.bind_fun_some _
  | cons e es =>
    rw [Element.countedAll, positive_append] at h
    rw [Element.countedAll, ← List.append_assoc,
      ← ofElements?_eq_least? (positive_append.2 ⟨hl, h.1⟩) h.2, least?_append hl h.1,
      ← ofElement?_eq_least? h.1]
    cases least? ls with
    | none => rfl
    | some ticks =>
      rw [Option.bind_some, Option.bind_some, ofElements?]
      cases ofElement? e with
      | none => rfl
      | some n =>
        rw [Option.bind_some]
        cases hnext : lcm? ticks n <;> simp [hnext]

end

theorem ofBar?_eq_least? {b : Bar} (h : Positive (Element.countedAll b)) :
    ofBar? b = least? (Element.countedAll b) := by
  have hnil : Positive [] := by simp [Positive]
  exact ofElements?_eq_least? hnil h

theorem foldlM_eq_least? {bs : List Bar} (hl : Positive ls)
    (h : Positive (bs.flatMap Element.countedAll)) :
    ((least? ls).bind fun ticks =>
        bs.foldlM (fun ticks b => (ofBar? b).bind (lcm? ticks)) ticks) =
      least? (ls ++ bs.flatMap Element.countedAll) := by
  induction bs generalizing ls with
  | nil =>
    rw [List.flatMap_nil, List.append_nil]
    exact Option.bind_fun_some _
  | cons b bs ih =>
    rw [List.flatMap_cons, positive_append] at h
    rw [List.flatMap_cons, ← List.append_assoc, ← ih (positive_append.2 ⟨hl, h.1⟩) h.2,
      least?_append hl h.1, ← ofBar?_eq_least? h.1, Option.bind_assoc]
    rfl

end Resolution

namespace Element

mutual

theorem positive_counted {e : Element} (hden : ∀ d ∈ e.durations, d.den ≠ 0) :
    Resolution.Positive e.counted := by
  cases e with
  | note n =>
    rw [durations, List.forall_mem_singleton] at hden
    simpa [Resolution.Positive, counted] using hden
  | rest d =>
    rw [durations, List.forall_mem_singleton] at hden
    simpa [Resolution.Positive, counted] using hden
  | accidental pitch value => simp [Resolution.Positive, counted]
  | chord notes =>
    rw [durations, List.forall_mem_map] at hden
    cases notes with
    | nil => simp [Resolution.Positive, counted]
    | cons n notes => simpa [Resolution.Positive, counted] using hden n List.mem_cons_self
  | tuplet size elements k =>
    rw [counted, ← List.singleton_append, Resolution.positive_append]
    refine ⟨fun d hd => ?_, ?_⟩
    · exact duration?_den_ne_zero hden (List.mem_singleton.1 hd).symm
    · rw [durations] at hden
      exact positive_countedAll hden

theorem positive_countedAll {es : List Element} (hden : ∀ d ∈ durationsAll es, d.den ≠ 0) :
    Resolution.Positive (countedAll es) := by
  cases es with
  | nil => simp [Resolution.Positive, countedAll]
  | cons e es =>
    rw [durationsAll, List.forall_mem_append] at hden
    rw [countedAll, Resolution.positive_append]
    exact ⟨positive_counted hden.1, positive_countedAll hden.2⟩

end

end Element

namespace Tune

theorem positive_counted {t : Tune} (hden : ∀ d ∈ t.durations, d.den ≠ 0) :
    Resolution.Positive t.counted := by
  intro d hd
  rcases List.mem_cons.1 hd with hd | hd
  · obtain rfl := Option.some.inj hd
    exact hden _ t.defaultLength_mem_durations
  · obtain ⟨v, hv, hd⟩ := List.mem_flatMap.1 hd
    obtain ⟨b, hb, hd⟩ := List.mem_flatMap.1 hd
    refine Element.positive_countedAll (fun x hx => ?_) d hd
    exact hden x (mem_durations hv (Voice.mem_played_iff.2 hb) hx)

theorem resolution?_eq_least? {t : Tune} (h : Resolution.Positive t.counted) :
    t.resolution? = Resolution.least? t.counted := by
  -- A repeat plays some bars twice, and what they count they count once.
  have hplayed : ∀ d, d ∈ t.counted ↔ d ∈ [some t.defaultLength] ++
      (t.voices.flatMap Voice.played).flatMap Element.countedAll := by
    intro d
    simp only [counted, List.singleton_append, List.mem_cons, List.mem_flatMap,
      ← Voice.mem_played_iff]
    grind
  have hpos := Resolution.positive_append.1 (Resolution.positive_congr hplayed h)
  have hdefault : t.defaultLength.den ≠ 0 := hpos.1 _ List.mem_cons_self
  rw [Resolution.least?_congr hplayed, ← Resolution.foldlM_eq_least? hpos.1 hpos.2,
    Resolution.least?_singleton, Option.bind_some, resolution?, Resolution.atLeastOne,
    if_neg hdefault]
  rfl

end Tune

namespace Element

/-- The same elements in another order. Those of a tuplet may change places too, as long as the
tuplet stays as long as it was. -/
inductive Reordered : List Element → List Element → Prop
  | nil : Reordered [] []
  | cons (e : Element) {es fs : List Element} (h : Reordered es fs) :
    Reordered (e :: es) (e :: fs)
  | swap (e f : Element) (es : List Element) : Reordered (e :: f :: es) (f :: e :: es)
  | inside (size : UInt32) (notes : Nat) (es : List Element) {inner inner' : List Element}
    (h : Reordered inner inner')
    (hlength : (tuplet size inner notes).duration? = (tuplet size inner' notes).duration?) :
    Reordered (tuplet size inner notes :: es) (tuplet size inner' notes :: es)
  | trans {es fs gs : List Element} (h : Reordered es fs) (h' : Reordered fs gs) :
    Reordered es gs

theorem Reordered.mem_countedAll_iff {es fs : List Element} (h : Reordered es fs)
    (d : Option Duration) : d ∈ countedAll es ↔ d ∈ countedAll fs := by
  induction h with
  | nil => rfl
  | cons e h ih => rw [countedAll, countedAll, List.mem_append, List.mem_append, ih]
  | swap e f es =>
    simp only [countedAll, List.mem_append]
    exact or_left_comm
  | inside size notes es h hlength ih =>
    simp only [countedAll, counted, List.mem_append, List.mem_cons, hlength, ih]
  | trans h h' ih ih' => exact ih.trans ih'

end Element

/-- The same bars but for the order of their elements, in whatever order, voices and repeats. -/
structure Tune.Rearranged (t u : Tune) : Prop where
  defaultLength : u.defaultLength = t.defaultLength
  bars : ∃ bs, List.Forall₂ Element.Reordered (t.voices.flatMap Voice.bars) bs ∧
    bs.Perm (u.voices.flatMap Voice.bars)

namespace Tune

theorem Rearranged.mem_counted_iff {t u : Tune} (h : t.Rearranged u) (d : Option Duration) :
    d ∈ t.counted ↔ d ∈ u.counted := by
  have hbars : ∀ {as bs : List Bar}, List.Forall₂ Element.Reordered as bs →
      (d ∈ as.flatMap Element.countedAll ↔ d ∈ bs.flatMap Element.countedAll) := by
    intro as bs hreordered
    induction hreordered with
    | nil => rfl
    | cons hfirst hothers ih =>
      rw [List.flatMap_cons, List.flatMap_cons, List.mem_append, List.mem_append, ih,
        hfirst.mem_countedAll_iff]
  obtain ⟨bs, hreordered, hperm⟩ := h.bars
  rw [counted, counted, List.mem_cons, List.mem_cons, ← List.flatMap_assoc, ← List.flatMap_assoc,
    hbars hreordered, (hperm.flatMap_right Element.countedAll).mem_iff, h.defaultLength]

/-- Whatever the tune, if its lengths are fractions: its resolution is the least common multiple of
the denominators that count; there is none only if a tuplet has no length or the multiple does not
fit; and it does not depend on the order of anything. -/
theorem resolution?_eq_least (t : Tune) (hden : ∀ d ∈ t.durations, d.den ≠ 0) :
    (∀ ticks, t.resolution? = some ticks ↔
        none ∉ t.counted ∧ ticks.toNat = Resolution.least t.counted) ∧
      (t.resolution? = none ↔ none ∈ t.counted ∨ UInt32.size ≤ Resolution.least t.counted) ∧
      ∀ u, t.Rearranged u → u.resolution? = t.resolution? := by
  have hpos := positive_counted hden
  have heq := resolution?_eq_least? hpos
  refine ⟨fun ticks => ?_, ?_, fun u hu => ?_⟩
  · rw [heq, Resolution.least?_eq_some_iff]
  · rw [heq, Resolution.least?_eq_none_iff]
  · have hmem := hu.mem_counted_iff
    rw [heq, resolution?_eq_least? (Resolution.positive_congr hmem hpos),
      Resolution.least?_congr hmem]

/-- One unnamed voice with these bars. -/
def line (bars : List Bar) : Tune :=
  { blank with voices := [⟨none, bars.map .bar, false⟩] }

/-- The bars, the elements of the first and the last two notes of the triplet change places. -/
theorem resolution?_eq_least_backwards :
    ∃ bs cs, read "L:1/8\nC/5(3DE/7F/3|G2" = .ok (line bs) ∧
      read "L:1/8\nG2|(3DF/3E/7C/5" = .ok (line cs) ∧ (line bs).Rearranged (line cs) ∧
      Resolution.least (line bs).counted = 840 ∧ (line bs).resolution? = some 840 ∧
      (line cs).resolution? = (line bs).resolution? := by
  let c : Element := .note ⟨⟨.c, 0, 0⟩, ⟨1, 5⟩⟩
  let d : Element := .note ⟨⟨.d, 0, 0⟩, .unit⟩
  let e : Element := .note ⟨⟨.e, 0, 0⟩, ⟨1, 7⟩⟩
  let f : Element := .note ⟨⟨.f, 0, 0⟩, ⟨1, 3⟩⟩
  let g : Element := .note ⟨⟨.g, 0, 0⟩, ⟨2, 1⟩⟩
  let bs : List Bar := [[c, .tuplet 3 [d, e, f] 3], [g]]
  let cs : List Bar := [[g], [.tuplet 3 [d, f, e] 3, c]]
  have hden : ∀ x ∈ (line bs).durations, x.den ≠ 0 := by decide +kernel
  have hfirst : Element.Reordered [c, .tuplet 3 [d, e, f] 3] [.tuplet 3 [d, f, e] 3, c] :=
    .trans (.swap _ _ _) (.inside 3 3 [c] (.cons d (.swap e f [])) (by decide +kernel))
  have hsecond : Element.Reordered [g] [g] := .cons g .nil
  have hrearranged : (line bs).Rearranged (line cs) :=
    ⟨rfl, _, .cons hfirst (.cons hsecond .nil), .swap _ _ _⟩
  have hleast : Resolution.least (line bs).counted = 840 := by decide +kernel
  obtain ⟨hsome, -, horder⟩ := resolution?_eq_least (line bs) hden
  exact ⟨bs, cs, by with_unfolding_all rfl, by with_unfolding_all rfl, hrearranged, hleast,
    (hsome 840).2 ⟨by decide +kernel, hleast.symm⟩, horder (line cs) hrearranged⟩

/-- A triplet is as long as its first note makes it, so this note cannot change places. -/
theorem resolution?_ne_of_triplet_perm :
    ∃ es fs, List.Perm es fs ∧
      read "L:1/8\n(3CC/3C" = .ok (line [[.tuplet 3 es 3]]) ∧
      read "L:1/8\n(3C/3CC" = .ok (line [[.tuplet 3 fs 3]]) ∧
      (line [[.tuplet 3 es 3]]).resolution? = some 24 ∧
      (line [[.tuplet 3 fs 3]]).resolution? = some 72 := by
  let c : Element := .note ⟨⟨.c, 0, 0⟩, .unit⟩
  let short : Element := .note ⟨⟨.c, 0, 0⟩, ⟨1, 3⟩⟩
  exact ⟨[c, short, c], [short, c, c], .swap _ _ _, by with_unfolding_all rfl,
    by with_unfolding_all rfl, by decide +kernel, by decide +kernel⟩

end Tune

end Tunebook
