import Tunebook.Proofs.Feedback.BarTotals
import Tunebook.Proofs.Playback.Settling

namespace Tunebook

namespace Duration

variable {a b : Duration}

theorem mul?_reduced_reduced (ha : a.den ≠ 0) (hb : b.den ≠ 0) :
    a.reduced.mul? b.reduced = a.mul? b := by
  rw [mul?_eq_ofValue? (a.reduced_den_ne_zero ha) (b.reduced_den_ne_zero hb), value_reduced ha,
    value_reduced hb, mul?_eq_ofValue? ha hb]

theorem alike_reduced_reduced (ha : a.den ≠ 0) (hb : b.den ≠ 0) :
    a.reduced.alike b.reduced = a.alike b := by
  rw [Bool.eq_iff_iff, alike_iff_value (a.reduced_den_ne_zero ha) (b.reduced_den_ne_zero hb),
    value_reduced ha, value_reduced hb, alike_iff_value ha hb]

theorem ticks?_reduced {d : Duration} (h : d.den ≠ 0) (ticks : UInt64) :
    d.reduced.ticks? ticks = d.ticks? ticks := by
  have hg := commonDivisor_pos d.num.toNat d.den.toNat
  have hnum := Nat.div_mul_cancel (commonDivisor_dvd_left d.num.toNat d.den.toNat)
  have hden := Nat.div_mul_cancel (commonDivisor_dvd_right d.num.toNat d.den.toNat)
  have hquotient : ticks.toNat * d.reduced.num.toNat / d.reduced.den.toNat =
      ticks.toNat * d.num.toNat / d.den.toNat := by
    rw [reduced_num, reduced_den, ← Nat.mul_div_mul_right _ _ hg, Nat.mul_assoc, hnum, hden]
  rw [ticks?, ticks?, if_neg h, if_neg (d.reduced_den_ne_zero h), hquotient]

end Duration

def Clock.reduced (c : Clock) : Clock :=
  { c with unitLength := c.unitLength.reduced }

theorem Clock.ticks?_reduced {c : Clock} {d : Duration} (hunit : c.unitLength.den ≠ 0)
    (hd : d.den ≠ 0) (scale : Duration) : c.reduced.ticks? scale d.reduced = c.ticks? scale d := by
  simp only [Clock.ticks?, Clock.reduced, Duration.ticks?_reduced hunit,
    Duration.ticks?_reduced hd]

namespace Element

mutual

def reduced : Element → Element
  | note n => note n.reduced
  | rest d => rest d.reduced
  | accidental pitch value => accidental pitch value
  | chord notes => chord (notes.map Note.reduced)
  | tuplet size elements notes => tuplet size (reducedAll elements) notes

def reducedAll : List Element → List Element
  | [] => []
  | e :: es => reduced e :: reducedAll es

end

end Element

def Bar.reduced (b : Bar) : Bar :=
  Element.reducedAll b

def Repeat.reduced (r : Repeat) : Repeat :=
  ⟨r.normal.map Bar.reduced, r.firstEnding.map Bar.reduced, r.secondEnding.map Bar.reduced⟩

def Phrase.reduced : Phrase → Phrase
  | bar b => bar (Bar.reduced b)
  | repeated r => repeated r.reduced

def Voice.reduced (v : Voice) : Voice :=
  { v with phrases := v.phrases.map Phrase.reduced }

def Tune.reduced (t : Tune) : Tune :=
  { t with
    defaultLength := t.defaultLength.reduced
    meter := t.meter.reduced
    voices := t.voices.map Voice.reduced }

theorem Phrase.played_reduced (p : Phrase) : p.reduced.played = p.played.map Bar.reduced := by
  cases p with
  | bar b => rfl
  | repeated r => simp [Phrase.reduced, Phrase.played, Repeat.reduced, Repeat.played]

theorem Voice.played_reduced (v : Voice) : v.reduced.played = v.played.map Bar.reduced := by
  rw [Voice.played, Voice.played, Voice.reduced, List.flatMap_map, List.map_flatMap]
  apply List.flatMap_congr
  intro p _
  exact p.played_reduced

def Fractional (bs : List Bar) : Prop :=
  ∀ b ∈ bs, ∀ d ∈ Element.durationsAll b, d.den ≠ 0

theorem Voice.fractional_played {v : Voice} (h : Fractional v.bars) : Fractional v.played :=
  fun b hb => h b (mem_bars_of_played hb)

theorem Tune.fractional_bars {t : Tune} (hden : ∀ d ∈ t.durations, d.den ≠ 0) {v : Voice}
    (hv : v ∈ t.voices) : Fractional v.bars :=
  fun _ hb d hd => hden d (mem_durations hv (Voice.mem_played_iff.2 hb) hd)

def Item.reduced : Item → Item
  | sign letter value => sign letter value
  | leaf l => leaf l.reduced

namespace Element

mutual

theorem items_reduced (scale : Duration) (e : Element) :
    e.reduced.items scale = (e.items scale).map Item.reduced := by
  cases e with
  | note n => rfl
  | rest d => rfl
  | accidental pitch value => rfl
  | chord notes =>
    rw [reduced, items, items, chordDuration_reduced, List.map_map]
    rfl
  | tuplet size elements notes =>
    rw [reduced, items, items]
    exact itemsAll_reduced (tupletScale size) elements

theorem itemsAll_reduced (scale : Duration) (es : List Element) :
    itemsAll scale (reducedAll es) = (itemsAll scale es).map Item.reduced := by
  cases es with
  | nil => rfl
  | cons e es =>
    rw [reducedAll, itemsAll, itemsAll, List.map_append, items_reduced scale e,
      itemsAll_reduced scale es]

end

mutual

theorem leaf_den_ne_zero {scale : Duration} {e : Element} (hden : ∀ d ∈ e.durations, d.den ≠ 0) :
    ∀ l, .leaf l ∈ e.items scale → l.length.den ≠ 0 := by
  cases e with
  | note n =>
    rw [durations, List.forall_mem_singleton] at hden
    simp [items, hden]
  | rest d =>
    rw [durations, List.forall_mem_singleton] at hden
    simp [items, hden]
  | accidental pitch value => simp [items]
  | chord notes =>
    rw [durations, List.forall_mem_map] at hden
    simp [items, chordDuration_den_ne_zero hden]
  | tuplet size elements notes =>
    rw [durations] at hden
    rw [items]
    exact leaf_den_ne_zero_all hden

theorem leaf_den_ne_zero_all {scale : Duration} {es : List Element}
    (hden : ∀ d ∈ durationsAll es, d.den ≠ 0) :
    ∀ l, .leaf l ∈ itemsAll scale es → l.length.den ≠ 0 := by
  cases es with
  | nil => simp [itemsAll]
  | cons e es =>
    rw [durationsAll, List.forall_mem_append] at hden
    intro l hl
    rw [itemsAll, List.mem_append] at hl
    rcases hl with hl | hl
    · exact leaf_den_ne_zero hden.1 l hl
    · exact leaf_den_ne_zero_all hden.2 l hl

end

end Element

namespace Part

def reduced (part : Part) : Part :=
  { part with clock := part.clock.reduced }

variable {part : Part} (hunit : part.clock.unitLength.den ≠ 0)

include hunit

theorem item?_reduced (p : Playhead) {item : Item} (h : ∀ l, .leaf l = item → l.length.den ≠ 0) :
    part.reduced.item? p item.reduced = part.item? p item := by
  cases item with
  | sign letter value => rfl
  | leaf l =>
    have hticks : part.reduced.clock.ticks? l.reduced.scale l.reduced.length =
        part.clock.ticks? l.scale l.length :=
      Clock.ticks?_reduced hunit (h l rfl) l.scale
    rw [Item.reduced, item?, item?, hticks]
    rfl

theorem items?_reduced (p : Playhead) {items : List Item}
    (h : ∀ l, .leaf l ∈ items → l.length.den ≠ 0) :
    part.reduced.items? p (items.map Item.reduced) = part.items? p items := by
  induction items generalizing p with
  | nil => rfl
  | cons item items ih =>
    have hitem : ∀ l, .leaf l = item → l.length.den ≠ 0 := fun l hl =>
      h l (by rw [hl]; exact List.mem_cons_self)
    have hothers : ∀ l, .leaf l ∈ items → l.length.den ≠ 0 := fun l hl =>
      h l (List.mem_cons_of_mem item hl)
    rw [List.map_cons, items?, items?, item?_reduced hunit p hitem]
    simp only [ih _ hothers]

theorem bars?_reduced (key : KeySignature) (tick : UInt32) {bs : List Bar} (h : Fractional bs) :
    part.reduced.bars? key tick (bs.map Bar.reduced) = part.bars? key tick bs := by
  induction bs generalizing tick with
  | nil => rfl
  | cons b bs ih =>
    rw [Fractional, List.forall_mem_cons] at h
    have hitems : Bar.items (Bar.reduced b) = (Bar.items b).map Item.reduced :=
      Element.itemsAll_reduced .unit b
    have hfirst : part.reduced.items? ⟨tick, key.alteration?⟩ ((Bar.items b).map Item.reduced) =
        part.items? ⟨tick, key.alteration?⟩ (Bar.items b) :=
      items?_reduced hunit _ (Element.leaf_den_ne_zero_all h.1)
    rw [List.map_cons, bars?_cons, bars?_cons, hitems, hfirst]
    simp only [ih _ h.2]

end Part

namespace Tune

variable {t : Tune}

theorem events?_reduced (hden : ∀ d ∈ t.durations, d.den ≠ 0) (ticks : UInt32) :
    t.reduced.events? ticks = t.events? ticks := by
  have hvoices : t.reduced.voices.zipIdx = t.voices.zipIdx.map (Prod.map Voice.reduced id) :=
    List.zipIdx_map
  have hparts : t.reduced.voices.zipIdx.mapM (fun v =>
        Part.bars? ⟨t.reduced.clock ticks, v.2⟩ t.key 0 v.1.played) =
      t.voices.zipIdx.mapM fun v => Part.bars? ⟨t.clock ticks, v.2⟩ t.key 0 v.1.played := by
    rw [hvoices, List.mapM_map]
    apply mapM_congr_left
    intro v hv
    have hunit : (t.clock ticks).unitLength.den ≠ 0 := hden _ t.defaultLength_mem_durations
    have hplayed : (Prod.map Voice.reduced id v).1.played = v.1.played.map Bar.reduced :=
      v.1.played_reduced
    have hfractional := fractional_bars hden (List.fst_mem_of_mem_zipIdx hv)
    have hpart := @Part.bars?_reduced ⟨t.clock ticks, v.2⟩ hunit t.key 0 _
      (Voice.fractional_played hfractional)
    rw [Function.comp_apply, hplayed]
    exact hpart
  exact congrArg (fun parts => parts.bind fun voices => some voices.flatten) hparts

end Tune

def FeedbackKind.reduced : FeedbackKind → FeedbackKind
  | barLength expected actual => barLength expected.reduced actual.reduced
  | chordLength expected found => chordLength expected.reduced found.reduced
  | barOverflow => barOverflow

def Feedback.reduced (f : Feedback) : Feedback :=
  { f with kind := f.kind.reduced }

namespace Element

theorem isTimed_reduced (e : Element) : e.reduced.isTimed = e.isTimed := by
  cases e <;> rfl

theorem tupletDuration?_map_reduced (size : UInt32) {first : Duration} (hfirst : first.den ≠ 0) :
    (tupletDuration? size first).map Duration.reduced = tupletDuration? size first := by
  unfold tupletDuration?
  split
  · cases hd : first.mul? (tupletScale size) with
    | none => rfl
    | some d =>
      have hvalue := hd
      rw [Duration.mul?_eq_ofValue? hfirst (tupletScale_den_ne_zero size)] at hvalue
      have hnonneg := mul_nonneg first.value_nonneg (tupletScale size).value_nonneg
      rw [Option.map_some, Duration.reduced_of_ofValue? hnonneg hvalue]
  · rfl

mutual

theorem duration?_reduced {e : Element} (hden : ∀ d ∈ e.durations, d.den ≠ 0) :
    e.reduced.duration? = e.duration?.map Duration.reduced := by
  cases e with
  | note n => rfl
  | rest d => rfl
  | accidental pitch value => rfl
  | chord notes => exact congrArg some (chordDuration_reduced notes)
  | tuplet size elements notes =>
    rw [durations] at hden
    rw [reduced, duration?, duration?, leadDuration?_reduced hden]
    cases hfirst : leadDuration? elements with
    | none => rfl
    | some first =>
      have hne := leadDuration?_den_ne_zero hden hfirst
      rw [Option.map_some, Option.bind_some, Option.bind_some, tupletDuration?_reduced,
        tupletDuration?_map_reduced size hne]

theorem leadDuration?_reduced {es : List Element} (hden : ∀ d ∈ durationsAll es, d.den ≠ 0) :
    leadDuration? (reducedAll es) = (leadDuration? es).map Duration.reduced := by
  cases es with
  | nil => rfl
  | cons e es =>
    rw [durationsAll, List.forall_mem_append] at hden
    rw [reducedAll, leadDuration?, leadDuration?, isTimed_reduced]
    split
    · exact duration?_reduced hden.1
    · exact leadDuration?_reduced hden.2

end

end Element

namespace Feedback

theorem ofChord_reduced {notes : List Note} (hden : ∀ n ∈ notes, n.duration.den ≠ 0) :
    ofChord (notes.map Note.reduced) = (ofChord notes).map FeedbackKind.reduced := by
  rw [ofChord, ofChord, chordDuration_reduced, List.filter_map, List.map_map, List.map_map]
  have hfilter : notes.filter ((fun n => !n.duration.alike (chordDuration notes).reduced) ∘
        Note.reduced) =
      notes.filter fun n => !n.duration.alike (chordDuration notes) := by
    apply List.filter_congr
    intro n hn
    have hfirst := chordDuration_den_ne_zero hden
    exact congrArg not (Duration.alike_reduced_reduced (hden n hn) hfirst)
  rw [hfilter]
  rfl

mutual

theorem ofElement_reduced {e : Element} (hden : ∀ d ∈ e.durations, d.den ≠ 0) :
    ofElement e.reduced = (ofElement e).map FeedbackKind.reduced := by
  cases e with
  | note n => rfl
  | rest d => rfl
  | accidental pitch value => rfl
  | chord notes =>
    rw [Element.durations, List.forall_mem_map] at hden
    rw [Element.reduced, ofElement, ofElement, ofChord_reduced hden]
  | tuplet size elements notes =>
    rw [Element.durations] at hden
    rw [Element.reduced, ofElement, ofElement, ofElements_reduced hden]

theorem ofElements_reduced {es : List Element} (hden : ∀ d ∈ Element.durationsAll es, d.den ≠ 0) :
    ofElements (Element.reducedAll es) = (ofElements es).map FeedbackKind.reduced := by
  cases es with
  | nil => rfl
  | cons e es =>
    rw [Element.durationsAll, List.forall_mem_append] at hden
    rw [Element.reducedAll, ofElements, ofElements, List.map_append, ofElement_reduced hden.1,
      ofElements_reduced hden.2]

end

variable {unitLength meter : Duration} (hunit : unitLength.den ≠ 0)

include hunit

theorem extend?_reduced (total : Duration) {e : Element} (hden : ∀ d ∈ e.durations, d.den ≠ 0) :
    extend? unitLength.reduced total e.reduced = extend? unitLength total e := by
  rw [extend?, extend?, Element.duration?_reduced hden]
  cases hd : e.duration? with
  | none => rfl
  | some d =>
    have hne := Element.duration?_den_ne_zero hden hd
    simp only [Option.map_some, Option.bind_eq_bind, Option.bind_some,
      Duration.mul?_reduced_reduced hne hunit]

theorem foldlM_extend?_reduced (total : Duration) {es : List Element}
    (hden : ∀ d ∈ Element.durationsAll es, d.den ≠ 0) :
    (Element.reducedAll es).foldlM (extend? unitLength.reduced) total =
      es.foldlM (extend? unitLength) total := by
  induction es generalizing total with
  | nil => rfl
  | cons e es ih =>
    rw [Element.durationsAll, List.forall_mem_append] at hden
    rw [Element.reducedAll, List.foldlM_cons, List.foldlM_cons,
      extend?_reduced hunit total hden.1]
    simp only [ih _ hden.2]

theorem ofBarLength_reduced (hmeter : meter.den ≠ 0) {b : Bar}
    (hden : ∀ d ∈ Element.durationsAll b, d.den ≠ 0) :
    ofBarLength unitLength.reduced meter.reduced (Bar.reduced b) =
      (ofBarLength unitLength meter b).map FeedbackKind.reduced := by
  have hlength : barLength? unitLength.reduced (Bar.reduced b) = barLength? unitLength b :=
    foldlM_extend?_reduced hunit .zero hden
  rw [ofBarLength, ofBarLength, hlength]
  cases htotal : barLength? unitLength b with
  | none => rfl
  | some total =>
    have hvalue := ((barLength?_eq_some_iff hunit hden).1 htotal).2
    have hreduced := Duration.reduced_of_ofValue? (Bar.wholeNotes_nonneg unitLength b) hvalue
    have halike := Duration.alike_reduced_reduced (Duration.ofValue?_den_ne_zero hvalue) hmeter
    rw [hreduced] at halike
    simp only [halike]
    split
    · rfl
    · simp [FeedbackKind.reduced, hreduced]

theorem ofVoice_reduced (hmeter : meter.den ≠ 0) {v : Voice} (hden : Fractional v.played) :
    ofVoice unitLength.reduced meter.reduced v.reduced =
      (ofVoice unitLength meter v).map Feedback.reduced := by
  rw [ofVoice, ofVoice, Voice.played_reduced, List.zipIdx_map, List.flatMap_map, List.map_flatMap]
  apply List.flatMap_congr
  rintro ⟨b, number⟩ hb
  have hbar := hden b (List.fst_mem_of_mem_zipIdx hb)
  have hkinds : ofBar unitLength.reduced meter.reduced (Bar.reduced b) =
      (ofBar unitLength meter b).map FeedbackKind.reduced := by
    rw [ofBar, ofBar, List.map_append, ofBarLength_reduced hunit hmeter hbar]
    exact congrArg (· ++ _) (ofElements_reduced hbar)
  dsimp only [Prod.map]
  rw [hkinds, List.map_map, List.map_map]
  rfl

end Feedback

/-- The diagnostics of a tune are those of its lowest terms, but for the lengths they cite. -/
theorem Tune.feedback_reduced {t : Tune} (hden : ∀ d ∈ t.durations, d.den ≠ 0) :
    t.reduced.feedback = t.feedback.map Feedback.reduced := by
  rw [feedback, feedback, List.map_flatMap]
  change (t.voices.map Voice.reduced).flatMap _ = _
  rw [List.flatMap_map]
  apply List.flatMap_congr
  intro v hv
  exact Feedback.ofVoice_reduced (hden _ t.defaultLength_mem_durations)
    (hden _ t.meter_mem_durations) (Voice.fractional_played (fractional_bars hden hv))

end Tunebook
