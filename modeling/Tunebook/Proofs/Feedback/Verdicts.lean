import Tunebook.Proofs.Feedback.BarTotals

namespace Tunebook

namespace Element

theorem duration_mem_durationsAll {es : List Element} {ns : List Note} {n : Note}
    (hns : ns ∈ chords es) (hn : n ∈ ns) : n.duration ∈ durationsAll es := by
  fun_induction chords es with
  | case1 => cases hns
  | case2 ns' es ih =>
    rw [durationsAll, durations, List.mem_append]
    rcases List.mem_cons.1 hns with rfl | hns
    · exact Or.inl (List.mem_map_of_mem hn)
    · exact Or.inr (ih hns)
  | case3 size elements k es ihInner ih =>
    rw [durationsAll, durations, List.mem_append]
    rcases List.mem_append.1 hns with hns | hns
    · exact Or.inl (ihInner hns)
    · exact Or.inr (ih hns)
  | case4 pitch value es ih => exact ih hns
  | case5 m es ih => exact List.mem_cons_of_mem _ (ih hns)
  | case6 d es ih => exact List.mem_cons_of_mem _ (ih hns)

end Element

namespace Feedback

def misfits (notes : List Note) : List Note :=
  notes.filter fun n => n.duration.value ≠ (chordDuration notes).value

/-- One diagnostic for each misfit of each chord. -/
def chordFaults (b : Bar) : List FeedbackKind :=
  (Element.chords b).flatMap fun notes =>
    (misfits notes).map fun n => .chordLength (chordDuration notes) n.duration

theorem ofChord_eq {notes : List Note} (hden : ∀ n ∈ notes, n.duration.den ≠ 0) :
    ofChord notes = (misfits notes).map fun n => .chordLength (chordDuration notes) n.duration := by
  rw [ofChord, misfits]
  congr 1
  apply List.filter_congr
  intro n hn
  have hiff := Duration.alike_iff_value (hden n hn) (chordDuration_den_ne_zero hden)
  rw [Bool.eq_iff_iff, Bool.not_eq_true', ← Bool.not_eq_true, hiff, decide_eq_true_iff]

theorem ofElements_eq (es : List Element) : ofElements es = (Element.chords es).flatMap ofChord := by
  fun_induction Element.chords es with
  | case1 => rfl
  | case2 ns es ih => rw [ofElements, ofElement, ih, List.flatMap_cons]
  | case3 size elements k es ihInner ih =>
    rw [ofElements, ofElement, ihInner, ih, List.flatMap_append]
  | case4 pitch value es ih => exact ih
  | case5 n es ih => exact ih
  | case6 d es ih => exact ih

theorem ofElements_eq_chordFaults {b : Bar} (hden : ∀ d ∈ Element.durationsAll b, d.den ≠ 0) :
    ofElements b = chordFaults b := by
  rw [ofElements_eq, chordFaults]
  apply List.flatMap_congr
  intro notes hnotes
  apply ofChord_eq
  intro n hn
  exact hden _ (Element.duration_mem_durationsAll hnotes hn)

/-- What may be said about the length of a bar, and when. -/
inductive Verdict (unitLength meter : Duration) (b : Bar) : List FeedbackKind → Prop
  | full (timed : ∀ e ∈ b, e.duration? ≠ none)
      (total : Bar.wholeNotes unitLength b = meter.value) : Verdict unitLength meter b []
  | misses {actual : Duration} (timed : ∀ e ∈ b, e.duration? ≠ none)
      (num : (actual.num.toNat : ℤ) = (Bar.wholeNotes unitLength b).num)
      (den : actual.den.toNat = (Bar.wholeNotes unitLength b).den)
      (total : Bar.wholeNotes unitLength b ≠ meter.value) :
      Verdict unitLength meter b [.barLength meter actual]
  | overflow {before after : List Element} {e : Element} (split : b = before ++ e :: after)
      (stuck : ¬Bar.Addable unitLength before e) : Verdict unitLength meter b [.barOverflow]

variable {unitLength meter : Duration} {b : Bar}

theorem ofBarLength_verdict (hunit : unitLength.den ≠ 0) (hmeter : meter.den ≠ 0)
    (hden : ∀ d ∈ Element.durationsAll b, d.den ≠ 0) :
    Verdict unitLength meter b (ofBarLength unitLength meter b) := by
  cases htotal : barLength? unitLength b with
  | none =>
    obtain ⟨before, e, after, hsplit, he⟩ := (barLength?_eq_none_iff hunit hden).1 htotal
    simp only [ofBarLength, htotal]
    exact .overflow hsplit he
  | some total =>
    obtain ⟨hall, hvalue⟩ := (barLength?_eq_some_iff hunit hden).1 htotal
    have hnonneg := Bar.wholeNotes_nonneg unitLength b
    have htimed : ∀ e ∈ b, e.duration? ≠ none := by
      intro e he
      obtain ⟨before, after, hsplit⟩ := List.append_of_mem he
      exact (hall before e after hsplit).timed
    have halike := Duration.alike_iff_value (Duration.ofValue?_den_ne_zero hvalue) hmeter
    rw [Duration.ofValue?_value hnonneg hvalue] at halike
    simp only [ofBarLength, htotal, halike]
    split
    · rename_i heq
      exact .full htimed heq
    · rename_i hne
      obtain ⟨hnum, hdenom⟩ := Duration.ofValue?_eq_some_iff.1 hvalue
      refine .misses htimed ?_ hdenom hne
      rw [hnum]
      exact Int.natAbs_of_nonneg (Rat.num_nonneg.2 hnonneg)

/-- The diagnostics of one bar: first those about its chords, then the one about its length. -/
def Judged (t : Tune) (voice : Option String) (b : Bar) (number : Nat) (fs : List Feedback) :
    Prop :=
  ∃ whole, Verdict t.defaultLength t.meter b whole ∧
    fs = (chordFaults b ++ whole).map fun kind => ⟨voice, number, kind⟩

theorem mem_ofVoice_iff {v : Voice} {number : Nat} (hb : (b, number) ∈ v.played.zipIdx 1)
    (kind : FeedbackKind) :
    ⟨v.name, number, kind⟩ ∈ ofVoice unitLength meter v ↔ kind ∈ ofBar unitLength meter b := by
  constructor
  · intro h
    obtain ⟨⟨b', number'⟩, hb', hkind⟩ := List.mem_flatMap.1 h
    obtain ⟨kind', hkind', heq⟩ := List.mem_map.1 hkind
    obtain ⟨-, rfl, rfl⟩ := Feedback.mk.inj heq
    rw [List.mem_zipIdx_iff_le_and_getElem?_sub] at hb hb'
    have hsame : b' = b := Option.some.inj (hb'.2.symm.trans hb.2)
    rwa [← hsame]
  · intro h
    exact List.mem_flatMap.2 ⟨(b, number), hb, List.mem_map_of_mem h⟩

theorem barOverflow_mem_ofBar_iff (hden : ∀ d ∈ Element.durationsAll b, d.den ≠ 0) :
    .barOverflow ∈ ofBar unitLength meter b ↔ barLength? unitLength b = none := by
  have hchords : .barOverflow ∉ ofElements b := by
    rw [ofElements_eq_chordFaults hden]
    simp [chordFaults]
  rw [ofBar, List.mem_append, or_iff_right hchords, ofBarLength]
  cases barLength? unitLength b with
  | none => simp
  | some total =>
    dsimp only
    split <;> simp

end Feedback

namespace Tune

/-- Whatever the tune, if its lengths are fractions: the diagnostics come voice by voice and bar by
bar as played, and in each bar they are those of its chords and then a true verdict on its
length. -/
theorem feedback_judged (t : Tune) (hden : ∀ d ∈ t.durations, d.den ≠ 0) :
    ∃ voices : List (List (List Feedback)), (voices.map List.flatten).flatten = t.feedback ∧
      List.Forall₂ (fun v bars => List.Forall₂
          (fun b fs => Feedback.Judged t v.name b.1 b.2 fs) (v.played.zipIdx 1) bars)
        t.voices voices := by
  let bars (v : Voice) : List (List Feedback) := (v.played.zipIdx 1).map fun b =>
    (Feedback.ofBar t.defaultLength t.meter b.1).map fun kind => ⟨v.name, b.2, kind⟩
  refine ⟨t.voices.map bars, ?_, ?_⟩
  · rw [List.map_map]
    rfl
  · rw [List.forall₂_map_right_iff, List.forall₂_same]
    intro v hv
    rw [List.forall₂_map_right_iff, List.forall₂_same]
    rintro ⟨b, number⟩ hb
    have hbar : ∀ d ∈ Element.durationsAll b, d.den ≠ 0 := fun d hd =>
      hden d (mem_durations hv (List.fst_mem_of_mem_zipIdx hb) hd)
    have hverdict := Feedback.ofBarLength_verdict (hden _ t.defaultLength_mem_durations)
      (hden _ t.meter_mem_durations) hbar
    refine ⟨_, hverdict, ?_⟩
    rw [← Feedback.ofElements_eq_chordFaults hbar]
    rfl

/-- A repeat with a chord that does not fit and a bar that is too short, against a chord inside a
triplet that fills its bar. -/
theorem feedback_judged_duet :
    ∃ t, read "M:2/4\nL:1/4\nV:a\n|:[C2E]|C:|\nV:b\n(3[C3E]DEF|" = .ok t ∧
      t.feedback =
        [⟨some "a", 1, .chordLength ⟨2, 1⟩ .unit⟩, ⟨some "a", 2, .barLength ⟨2, 4⟩ ⟨1, 4⟩⟩,
          ⟨some "a", 3, .chordLength ⟨2, 1⟩ .unit⟩, ⟨some "a", 4, .barLength ⟨2, 4⟩ ⟨1, 4⟩⟩,
          ⟨some "b", 1, .chordLength ⟨3, 1⟩ .unit⟩] ∧
      ∃ voices : List (List (List Feedback)), (voices.map List.flatten).flatten = t.feedback ∧
        List.Forall₂ (fun v bars => List.Forall₂
            (fun b fs => Feedback.Judged t v.name b.1 b.2 fs) (v.played.zipIdx 1) bars)
          t.voices voices := by
  obtain ⟨t, ht, hcheck⟩ := exists_of_any (show (read
    "M:2/4\nL:1/4\nV:a\n|:[C2E]|C:|\nV:b\n(3[C3E]DEF|").toOption.any (fun t => decide
      ((∀ d ∈ t.durations, d.den ≠ 0) ∧ t.feedback =
        [⟨some "a", 1, .chordLength ⟨2, 1⟩ .unit⟩, ⟨some "a", 2, .barLength ⟨2, 4⟩ ⟨1, 4⟩⟩,
          ⟨some "a", 3, .chordLength ⟨2, 1⟩ .unit⟩, ⟨some "a", 4, .barLength ⟨2, 4⟩ ⟨1, 4⟩⟩,
          ⟨some "b", 1, .chordLength ⟨3, 1⟩ .unit⟩])) = true by decide +kernel)
  obtain ⟨hden, hfeedback⟩ := of_decide_eq_true hcheck
  exact ⟨t, ht, hfeedback, feedback_judged t hden⟩

/-- Whatever the tune, if its lengths are fractions: a bar is called too long to add up if and only
if some element of it cannot be added to those before it. That the whole does not fit is enough for
this, but not needed. -/
theorem barOverflow_iff (t : Tune) (hden : ∀ d ∈ t.durations, d.den ≠ 0) (v : Voice)
    (hv : v ∈ t.voices) (b : Bar) (number : Nat) (hb : (b, number) ∈ v.played.zipIdx 1) :
    (⟨v.name, number, .barOverflow⟩ ∈ Feedback.ofVoice t.defaultLength t.meter v ↔
        ∃ before e after, b = before ++ e :: after ∧ ¬Bar.Addable t.defaultLength before e) ∧
      (¬Duration.Fits (Bar.wholeNotes t.defaultLength b) →
        ⟨v.name, number, .barOverflow⟩ ∈ Feedback.ofVoice t.defaultLength t.meter v) := by
  have hunit := hden _ t.defaultLength_mem_durations
  have hbar : ∀ d ∈ Element.durationsAll b, d.den ≠ 0 := fun d hd =>
    hden d (mem_durations hv (List.fst_mem_of_mem_zipIdx hb) hd)
  rw [Feedback.mem_ofVoice_iff hb, Feedback.barOverflow_mem_ofBar_iff hbar]
  have hiff := Feedback.barLength?_eq_none_iff hunit hbar
  refine ⟨hiff, fun hnot => ?_⟩
  by_contra hsome
  obtain ⟨total, htotal⟩ := Option.ne_none_iff_exists'.1 hsome
  exact hnot (Bar.fits_wholeNotes ((Feedback.barLength?_eq_some_iff hunit hbar).1 htotal).1)

/-- One bar of notes, which are to come to two whole notes. -/
def solo (lengths : List Duration) : Tune :=
  { blank with
    defaultLength := .unit
    meter := ⟨2, 1⟩
    voices := [⟨none, [.bar (lengths.map fun d => .note ⟨⟨.c, 0, 0⟩, d⟩)], false⟩] }

/-- Four notes come to two whole notes, as they should, and are said not to add up. In another
order nothing is said about them. -/
theorem barOverflow_iff_cancelling :
    ∃ lengths others : List Duration, lengths.Perm others ∧
      read "M:2/1\nL:1/1\nC/65537C/65539C65536/65537C65538/65539" = .ok (solo lengths) ∧
      read "M:2/1\nL:1/1\nC/65537C65536/65537C/65539C65538/65539" = .ok (solo others) ∧
      (solo lengths).feedback = [⟨none, 1, .barOverflow⟩] ∧ (solo others).feedback = [] ∧
      ∃ b, [b] = (solo lengths).voices.flatMap Voice.played ∧
        Bar.wholeNotes (solo lengths).defaultLength b = (solo lengths).meter.value ∧
        ∃ before e after, b = before ++ e :: after ∧
          ¬Bar.Addable (solo lengths).defaultLength before e := by
  let lengths : List Duration := [⟨1, 65537⟩, ⟨1, 65539⟩, ⟨65536, 65537⟩, ⟨65538, 65539⟩]
  let others : List Duration := [⟨1, 65537⟩, ⟨65536, 65537⟩, ⟨1, 65539⟩, ⟨65538, 65539⟩]
  let b : Bar := lengths.map fun d => .note ⟨⟨.c, 0, 0⟩, d⟩
  let v : Voice := ⟨none, [.bar b], false⟩
  have hreported : (solo lengths).feedback = [⟨none, 1, .barOverflow⟩] := by decide +kernel
  have hmem : ⟨none, 1, .barOverflow⟩ ∈
      Feedback.ofVoice (solo lengths).defaultLength (solo lengths).meter v := by decide +kernel
  have hden : ∀ d ∈ (solo lengths).durations, d.den ≠ 0 := by decide +kernel
  have hstuck := (barOverflow_iff (solo lengths) hden v List.mem_cons_self b 1
    List.mem_cons_self).1.1 hmem
  refine ⟨lengths, others, by decide, by with_unfolding_all rfl, by with_unfolding_all rfl,
    hreported, by decide +kernel, b, rfl, by decide +kernel, hstuck⟩

end Tune

end Tunebook
