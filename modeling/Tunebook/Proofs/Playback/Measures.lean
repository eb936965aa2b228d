import Tunebook.Proofs.Playback.Exactness
import Tunebook.Proofs.Playback.Timing

namespace Tunebook

def FeedbackKind.aboutBar : FeedbackKind → Bool
  | barLength .. => true
  | chordLength .. => false
  | barOverflow => true

theorem chordDuration_den_ne_zero {notes : List Note} (hden : ∀ n ∈ notes, n.duration.den ≠ 0) :
    (chordDuration notes).den ≠ 0 := by
  cases notes with
  | nil => decide
  | cons n notes => exact hden n List.mem_cons_self

namespace Element

theorem tupletDuration?_den_ne_zero {size : UInt32} {first d : Duration} (hfirst : first.den ≠ 0)
    (h : tupletDuration? size first = some d) : d.den ≠ 0 := by
  unfold tupletDuration? at h
  split at h
  · exact Duration.mul?_den_ne_zero _ _ d hfirst (tupletScale_den_ne_zero size) h
  · obtain rfl := Option.some.inj h
    decide

mutual

theorem duration?_den_ne_zero {e : Element} {d : Duration} (hden : ∀ x ∈ e.durations, x.den ≠ 0)
    (h : e.duration? = some d) : d.den ≠ 0 := by
  cases e with
  | note n =>
    obtain rfl := Option.some.inj h
    exact hden _ (by simp [durations])
  | rest x =>
    obtain rfl := Option.some.inj h
    exact hden _ (by simp [durations])
  | accidental pitch value =>
    obtain rfl := Option.some.inj h
    decide
  | chord notes =>
    obtain rfl := Option.some.inj h
    rw [durations, List.forall_mem_map] at hden
    exact chordDuration_den_ne_zero hden
  | tuplet size elements n =>
    rw [duration?, Option.bind_eq_some_iff] at h
    obtain ⟨first, hfirst, h⟩ := h
    rw [durations] at hden
    exact tupletDuration?_den_ne_zero (leadDuration?_den_ne_zero hden hfirst) h

theorem leadDuration?_den_ne_zero {es : List Element} {d : Duration}
    (hden : ∀ x ∈ durationsAll es, x.den ≠ 0) (h : leadDuration? es = some d) : d.den ≠ 0 := by
  cases es with
  | nil =>
    obtain rfl := Option.some.inj h
    decide
  | cons e es =>
    rw [durationsAll, List.forall_mem_append] at hden
    rw [leadDuration?] at h
    split at h
    · exact duration?_den_ne_zero hden.1 h
    · exact leadDuration?_den_ne_zero hden.2 h

end

theorem leaves_of_flat {e : Element} (scale : Duration) (h : e.isTuplet = false) :
    ∃ d, e.duration? = some d ∧
      ((e.items scale).filterMap Item.leaf? = [] ∧ d = .zero ∨
        ∃ pitches, (e.items scale).filterMap Item.leaf? = [⟨pitches, d, scale⟩]) := by
  cases e with
  | note n => exact ⟨_, rfl, .inr ⟨_, rfl⟩⟩
  | rest d => exact ⟨_, rfl, .inr ⟨_, rfl⟩⟩
  | accidental pitch value => exact ⟨_, rfl, .inl ⟨rfl, rfl⟩⟩
  | chord notes => exact ⟨_, rfl, .inr ⟨_, rfl⟩⟩
  | tuplet size elements n => cases h

end Element

namespace Bar

def wholeNotes (unitLength : Duration) : Bar → ℚ
  | [] => 0
  | e :: es => e.duration?.elim 0 Duration.value * unitLength.value + wholeNotes unitLength es

theorem leaves_cons (e : Element) (es : List Element) :
    leaves (e :: es) = (e.items .unit).filterMap Item.leaf? ++ leaves es := by
  rw [leaves, items, Element.itemsAll, List.filterMap_append]
  rfl

end Bar

namespace Feedback

theorem foldlM_value {unitLength total total' : Duration} {es : List Element}
    (hunit : unitLength.den ≠ 0) (hden : ∀ d ∈ Element.durationsAll es, d.den ≠ 0)
    (htotal : total.den ≠ 0)
    (h : es.foldlM (fun total e => e.duration?.bind fun d =>
      (d.mul? unitLength).bind total.add?) total = some total') :
    total'.den ≠ 0 ∧ total'.value = total.value + Bar.wholeNotes unitLength es := by
  induction es generalizing total with
  | nil =>
    obtain rfl := Option.some.inj h
    exact ⟨htotal, by rw [Bar.wholeNotes, add_zero]⟩
  | cons e es ih =>
    rw [Element.durationsAll, List.forall_mem_append] at hden
    simp only [List.foldlM_cons, Option.bind_eq_bind, Option.bind_eq_some_iff] at h
    obtain ⟨next, ⟨d, hd, x, hx, hnext⟩, h⟩ := h
    have hd0 := Element.duration?_den_ne_zero hden.1 hd
    have hx0 := Duration.mul?_den_ne_zero _ _ x hd0 hunit hx
    have hnext0 := Duration.add?_den_ne_zero _ _ next htotal hx0 hnext
    obtain ⟨hne, hvalue⟩ := ih hden.2 hnext0 h
    refine ⟨hne, ?_⟩
    rw [hvalue, Duration.add?_value htotal hx0 hnext, Duration.mul?_value hx, Bar.wholeNotes, hd,
      Option.elim_some, add_assoc]

theorem barLength?_value {unitLength total : Duration} {b : Bar} (hunit : unitLength.den ≠ 0)
    (hden : ∀ d ∈ Element.durationsAll b, d.den ≠ 0) (h : barLength? unitLength b = some total) :
    total.den ≠ 0 ∧ total.value = Bar.wholeNotes unitLength b := by
  obtain ⟨hne, hvalue⟩ := foldlM_value hunit hden (by decide) h
  exact ⟨hne, by rw [hvalue, Duration.value_zero, zero_add]⟩

/-- A bar that nothing is said about is as long as the meter. -/
theorem wholeNotes_eq_meter {unitLength meter : Duration} {b : Bar} (hunit : unitLength.den ≠ 0)
    (hmeter : meter.den ≠ 0) (hden : ∀ d ∈ Element.durationsAll b, d.den ≠ 0)
    (h : ∀ kind ∈ ofBarLength unitLength meter b, kind.aboutBar = false) :
    Bar.wholeNotes unitLength b = meter.value := by
  unfold ofBarLength at h
  split at h
  · cases h _ List.mem_cons_self
  · rename_i total htotal
    obtain ⟨hne, hvalue⟩ := barLength?_value hunit hden htotal
    split at h
    · rename_i halike
      rw [← hvalue]
      exact (Duration.alike_iff_value hne hmeter).1 halike
    · cases h _ List.mem_cons_self

end Feedback

/-- Outside of tuplets nothing is rounded, if the unit length is a number of quarter notes. -/
theorem Leaf.ticks_eq_value {c : Clock} {pitches : List Pitch} {d : Duration}
    (hticks : (ticks? c ⟨pitches, d, .unit⟩).isSome = true) (hne : d.den ≠ 0)
    (hd : d.den.toNat ∣ c.ticksPerQuarter.toNat) (hu : c.unitLength.den.toNat ∣ 4) :
    (ticks c ⟨pitches, d, .unit⟩ : ℚ) =
      4 * c.ticksPerQuarter.toNat * (d.value * c.unitLength.value) := by
  obtain ⟨n, hn⟩ := Option.isSome_iff_exists.1 hticks
  have hfloor := Clock.ticks?_eq_floor hn hne hd
  obtain ⟨k, hk⟩ := hd
  obtain ⟨m, hm⟩ := hu
  have hune : c.unitLength.den.toNat ≠ 0 := by
    intro h0
    rw [h0] at hm
    omega
  have hwhole : c.ticksPerQuarter.toNat * 4 * d.value * c.unitLength.value =
      (k * d.num.toNat * m * c.unitLength.num.toNat : ℕ) := by
    have hfour : (4 : ℚ) = c.unitLength.den.toNat * m := by exact_mod_cast hm
    have hne' := Duration.den_cast_ne_zero hne
    have hune' : (c.unitLength.den.toNat : ℚ) ≠ 0 := Nat.cast_ne_zero.2 hune
    rw [hfour, hk, Duration.value, Duration.value]
    push_cast
    field_simp
  rw [ticks_of_some hn, hfloor, hwhole, Nat.floor_natCast, Duration.value_unit, mul_one,
    Nat.floor_natCast, ← hwhole]
  ring

theorem Bar.span_eq_wholeNotes {c : Clock} {b : Bar} (hflat : ∀ e ∈ b, e.isTuplet = false)
    (hden : ∀ d ∈ Element.durationsAll b, d.den ≠ 0) (hu : c.unitLength.den.toNat ∣ 4)
    (hleaves : ∀ l ∈ leaves b, l.length.den.toNat ∣ c.ticksPerQuarter.toNat ∧
      (l.ticks? c).isSome = true) :
    (Leaf.span c (leaves b) : ℚ) =
      4 * c.ticksPerQuarter.toNat * wholeNotes c.unitLength b := by
  induction b with
  | nil =>
    rw [wholeNotes, mul_zero]
    rfl
  | cons e es ih =>
    rw [List.forall_mem_cons] at hflat
    rw [Element.durationsAll, List.forall_mem_append] at hden
    rw [leaves_cons, List.forall_mem_append] at hleaves
    obtain ⟨d, hd, hone⟩ := Element.leaves_of_flat .unit hflat.1
    have hd0 := Element.duration?_den_ne_zero hden.1 hd
    have hrest := ih hflat.2 hden.2 hleaves.2
    rw [leaves_cons, Leaf.span_append, Nat.cast_add, hrest, wholeNotes, hd, Option.elim_some,
      mul_add]
    congr 1
    rcases hone with ⟨hnil, rfl⟩ | ⟨pitches, hleaf⟩
    · rw [hnil, Leaf.span_nil, Duration.value_zero, zero_mul, mul_zero, Nat.cast_zero]
    · rw [hleaf, List.forall_mem_singleton] at hleaves
      obtain ⟨hdvd, hsome⟩ := hleaves.1
      rw [hleaf, Leaf.span_cons, Leaf.span_nil, Nat.add_zero]
      exact Leaf.ticks_eq_value hsome hd0 hdvd hu

/-- The bar takes exactly one measure, and measure number `k` at that, and nothing in it sounds
before the measure starts or after it ends. -/
structure Part.Measured (part : Part) (key : KeySignature) (measure : ℚ) (b : Bar) (k : Nat)
    (events : List NoteEvent) : Prop where
  taken : ∃ p q : Playhead, p.scope = key.alteration? ∧
    part.elements? .unit p b = some (events, q) ∧
    (p.tick.toNat : ℚ) = k * measure ∧ (q.tick.toNat : ℚ) = (k + 1) * measure
  within : ∀ e ∈ events, k * measure ≤ (e.start.toNat : ℚ) ∧
    (e.start.toNat + e.duration.toNat : ℚ) ≤ (k + 1) * measure

namespace Part

theorem measured_of_items? {part : Part} {key : KeySignature} {measure : ℚ} {b : Bar} {k : Nat}
    {tick : UInt32} {events : List NoteEvent} {q : Playhead}
    (h : part.items? ⟨tick, key.alteration?⟩ (Bar.items b) = some (events, q))
    (htick : (tick.toNat : ℚ) = k * measure)
    (hspan : (Leaf.span part.clock (Bar.leaves b) : ℚ) = measure) :
    part.Measured key measure b k events ∧ (q.tick.toNat : ℚ) = (k + 1) * measure := by
  have hlaid : Laid part tick.toNat q.tick.toNat (Bar.leaves b) events := items?_laid h
  have hstop : (q.tick.toNat : ℚ) = (k + 1) * measure := by
    rw [hlaid.stop_eq, Nat.cast_add, htick, hspan, add_mul, one_mul]
  refine ⟨⟨⟨⟨tick, key.alteration?⟩, q, rfl, ?_, htick, hstop⟩, ?_⟩, hstop⟩
  · rw [elements?_eq_items?]
    exact h
  · intro e he
    have hmem : e.timing ∈ part.timings tick.toNat (Bar.leaves b) := by
      rw [← hlaid.timing]
      exact List.mem_map_of_mem he
    obtain ⟨-, hstart, hend⟩ := mem_timings hmem
    have hstart' : (tick.toNat : ℚ) ≤ e.start.toNat := by exact_mod_cast hstart
    have hend' : (e.start.toNat + e.duration.toNat : ℚ) ≤
        tick.toNat + Leaf.span part.clock (Bar.leaves b) := by exact_mod_cast hend
    rw [htick] at hstart'
    rw [htick, hspan] at hend'
    exact ⟨hstart', hend'.trans_eq (by ring)⟩

theorem bars?_measured {part : Part} {key : KeySignature} {measure : ℚ} {bs : List Bar} {k : Nat}
    {tick : UInt32} {events : List NoteEvent} (h : part.bars? key tick bs = some events)
    (htick : (tick.toNat : ℚ) = k * measure)
    (hspan : ∀ b ∈ bs, (Leaf.span part.clock (Bar.leaves b) : ℚ) = measure) :
    ∃ bars : List (List NoteEvent), bars.flatten = events ∧
      List.Forall₂ (fun b es => part.Measured key measure b.1 b.2 es) (bs.zipIdx k) bars := by
  induction bs generalizing k tick events with
  | nil =>
    obtain rfl := Option.some.inj h
    exact ⟨[], rfl, .nil⟩
  | cons b bs ih =>
    rw [List.forall_mem_cons] at hspan
    simp only [bars?_cons, Option.bind_eq_some_iff, Option.map_eq_some_iff] at h
    obtain ⟨⟨first, middle⟩, hfirst, others, hothers, rfl⟩ := h
    obtain ⟨hmeasured, hmiddle⟩ := measured_of_items? hfirst htick hspan.1
    have hnext : (middle.tick.toNat : ℚ) = (k + 1 : ℕ) * measure := by
      rw [hmiddle]
      push_cast
      rfl
    obtain ⟨bars, rfl, hbars⟩ := ih hothers hnext hspan.2
    exact ⟨first :: bars, rfl, .cons hmeasured hbars⟩

end Part

namespace Tune

theorem mem_durations {t : Tune} {v : Voice} (hv : v ∈ t.voices) {b : Bar} (hb : b ∈ v.played)
    {d : Duration} (hd : d ∈ Element.durationsAll b) : d ∈ t.durations := by
  have hbar := Voice.mem_bars_of_played hb
  apply List.mem_cons_of_mem
  apply List.mem_cons_of_mem
  exact List.mem_flatMap.2 ⟨v, hv, List.mem_flatMap.2 ⟨b, hbar, hd⟩⟩

theorem mem_feedback {t : Tune} {v : Voice} (hv : v ∈ t.voices) {b : Bar} (hb : b ∈ v.played)
    {kind : FeedbackKind} (hk : kind ∈ Feedback.ofBar t.defaultLength t.meter b) :
    ∃ number, ⟨v.name, number, kind⟩ ∈ t.feedback := by
  obtain ⟨i, hi, rfl⟩ := List.mem_iff_getElem.1 hb
  have hnumber : (v.played[i], 1 + i) ∈ v.played.zipIdx 1 := by
    rw [List.mem_zipIdx_iff_le_and_getElem?_sub]
    simp [hi]
  exact ⟨1 + i, List.mem_flatMap.2
    ⟨v, hv, List.mem_flatMap.2 ⟨_, hnumber, List.mem_map_of_mem hk⟩⟩⟩

theorem span_eq_measure {t : Tune} {ticks : UInt32} {events : List NoteEvent}
    (hden : ∀ d ∈ t.durations, d.den ≠ 0)
    (hflat : ∀ v ∈ t.voices, ∀ b ∈ v.bars, ∀ e ∈ b, e.isTuplet = false)
    (hunit : t.defaultLength.den.toNat ∣ 4)
    (hclean : ∀ f ∈ t.feedback, f.kind.aboutBar = false)
    (hticks : t.resolution? = some ticks) (hevents : t.events? ticks = some events)
    {v : Voice} (hv : v ∈ t.voices) {b : Bar} (hb : b ∈ v.played) :
    (Leaf.span (t.clock ticks) (Bar.leaves b) : ℚ) = 4 * ticks.toNat * t.meter.value := by
  have hden' : ∀ d ∈ Element.durationsAll b, d.den ≠ 0 := fun d hd =>
    hden d (mem_durations hv hb hd)
  have hflat' := hflat v hv b (Voice.mem_bars_of_played hb)
  have hfit := (events?_isSome_iff t ticks).1 ⟨events, hevents⟩ v hv
  have hlength : Bar.wholeNotes t.defaultLength b = t.meter.value := by
    apply Feedback.wholeNotes_eq_meter (hden _ (by simp [durations]))
      (hden _ (by simp [durations])) hden'
    intro kind hkind
    obtain ⟨number, hmem⟩ := mem_feedback hv hb (List.mem_append_right _ hkind)
    exact hclean _ hmem
  have hspan := @Bar.span_eq_wholeNotes (t.clock ticks) b hflat' hden' hunit fun l hl =>
    ⟨den_dvd_resolution? hticks hv hb hl, hfit.counted l (List.mem_flatMap.2 ⟨b, hb, hl⟩)⟩
  rw [hspan, ← hlength]
  rfl

/-- Whatever the tune, if its lengths are fractions, it has no tuplets and its unit length is a
number of quarter notes: where no diagnostic is about a bar as a whole, the events come bar by bar,
each bar takes one measure exactly, and so the bars of all voices start together. -/
theorem events?_measured (t : Tune) (ticks : UInt32) (events : List NoteEvent)
    (hden : ∀ d ∈ t.durations, d.den ≠ 0)
    (hflat : ∀ v ∈ t.voices, ∀ b ∈ v.bars, ∀ e ∈ b, e.isTuplet = false)
    (hunit : t.defaultLength.den.toNat ∣ 4)
    (hclean : ∀ f ∈ t.feedback, f.kind.aboutBar = false)
    (hticks : t.resolution? = some ticks) (hevents : t.events? ticks = some events) :
    ∃ voices : List (List (List NoteEvent)), (voices.map List.flatten).flatten = events ∧
      List.Forall₂ (fun v bars => List.Forall₂
          (fun b es => Part.Measured ⟨t.clock ticks, v.2⟩ t.key
            (4 * ticks.toNat * t.meter.value) b.1 b.2 es)
          v.1.played.zipIdx bars)
        t.voices.zipIdx voices := by
  obtain ⟨parts, hparts, rfl⟩ := events?_eq_some_iff.1 hevents
  have hspan {v : Voice} (hv : v ∈ t.voices) {b : Bar} (hb : b ∈ v.played) :=
    span_eq_measure hden hflat hunit hclean hticks hevents hv hb
  have hvoice : ∀ v ∈ t.voices.zipIdx, ∀ es,
      Part.bars? ⟨t.clock ticks, v.2⟩ t.key 0 v.1.played = some es →
      ∃ bars : List (List NoteEvent), bars.flatten = es ∧ List.Forall₂
        (fun b es => Part.Measured ⟨t.clock ticks, v.2⟩ t.key
          (4 * ticks.toNat * t.meter.value) b.1 b.2 es)
        v.1.played.zipIdx bars := by
    intro v hv es hes
    apply Part.bars?_measured hes (by simp)
    intro b hb
    exact hspan (List.fst_mem_of_mem_zipIdx hv) hb
  obtain ⟨voices, hvoices, hmeasured⟩ := exists_map_eq_of_forall₂ hparts hvoice
  exact ⟨voices, by rw [hvoices], hmeasured⟩

/-- A repeat and a chord against a voice of longer notes, three bars in each. -/
theorem events?_measured_waltz :
    ∃ c, Compilation.ofText "M:3/4\nL:1/4\nV:a\n|:CDE:|[C3E]|\nV:b\nG3|z3/2A3/2|G3|" = .ok c ∧
      (∀ f ∈ c.tune.feedback, f.kind.aboutBar = false) ∧
      c.tune.voices.map (fun v => v.played.length) = [3, 3] ∧
      ∃ voices : List (List (List NoteEvent)), (voices.map List.flatten).flatten = c.events ∧
        List.Forall₂ (fun v bars => List.Forall₂
            (fun b es => Part.Measured ⟨c.clock, v.2⟩ c.tune.key 12 b.1 b.2 es)
            v.1.played.zipIdx bars)
          c.tune.voices.zipIdx voices := by
  obtain ⟨c, hc, hcheck⟩ := exists_of_any (show (Compilation.ofText
    "M:3/4\nL:1/4\nV:a\n|:CDE:|[C3E]|\nV:b\nG3|z3/2A3/2|G3|").toOption.any (fun c => decide
      ((∀ d ∈ c.tune.durations, d.den ≠ 0) ∧
        (∀ v ∈ c.tune.voices, ∀ b ∈ v.bars, ∀ e ∈ b, e.isTuplet = false) ∧
        c.tune.defaultLength.den.toNat ∣ 4 ∧ (∀ f ∈ c.tune.feedback, f.kind.aboutBar = false) ∧
        c.tune.voices.map (fun v => v.played.length) = [3, 3] ∧
        c.ticksPerQuarter = 4 ∧ c.tune.meter = ⟨3, 4⟩)) = true by decide +kernel)
  obtain ⟨hden, hflat, hunit, hclean, hplayed, hfour, hmeter⟩ := of_decide_eq_true hcheck
  obtain ⟨-, hticks, hevents⟩ := Compilation.ofText_eq_ok hc
  have hmeasure : 4 * (c.ticksPerQuarter.toNat : ℚ) * c.tune.meter.value = 12 := by
    rw [hfour, hmeter, Duration.value]
    change (4 : ℚ) * (4 : ℕ) * ((3 : ℕ) / (4 : ℕ)) = 12
    norm_num
  have hvoices := events?_measured c.tune c.ticksPerQuarter c.events hden hflat hunit hclean
    hticks hevents
  rw [hmeasure] at hvoices
  exact ⟨c, hc, hclean, hplayed, hvoices⟩

end Tune

end Tunebook
